import Reaper.Library.Dict

/-! Uncommitted changes of a map: the keys they touch, each with its new value or none for a
removal. Applying them decides the touched keys and leaves the others. -/

namespace Reaper.Library.Dict

variable {K V : Type} [DecidableEq K]

def change (d : Dict K V) (e : K × Option V) : Dict K V :=
  match e.2 with
  | some v => d.set e.1 v
  | none => d.erase e.1

def patch (d : Dict K V) (changes : Dict K (Option V)) : Dict K V := changes.entries.foldl change d

lemma get_change (d : Dict K V) (e : K × Option V) (k : K) :
    (d.change e).get k = if k = e.1 then e.2 else d.get k := by
  obtain ⟨j, v⟩ := e
  cases v with
  | some v => exact get_set d j v k
  | none => exact get_erase d j k

lemma get_foldl_change (es : List (K × Option V)) (d : Dict K V) (hn : (es.map Prod.fst).Nodup)
    (k : K) : (es.foldl change d).get k =
      match es.find? (fun e => e.1 = k) with
      | some e => e.2
      | none => d.get k := by
  induction es generalizing d with
  | nil => rfl
  | cons e es ih =>
    rw [List.map_cons, List.nodup_cons] at hn
    rw [List.foldl_cons, ih (d.change e) hn.2, List.find?_cons]
    by_cases he : e.1 = k
    · have hnone : es.find? (fun e => e.1 = k) = none := by
        rw [List.find?_eq_none]
        intro u hu hk
        exact hn.1 (List.mem_map.mpr ⟨u, hu, (of_decide_eq_true hk).trans he.symm⟩)
      rw [hnone, decide_eq_true he]
      exact (get_change d e k).trans (if_pos he.symm)
    · rw [decide_eq_false he]
      cases es.find? (fun e => e.1 = k) with
      | some u => rfl
      | none => exact (get_change d e k).trans (if_neg (Ne.symm he))

lemma get_patch (d : Dict K V) (changes : Dict K (Option V)) (k : K) :
    (d.patch changes).get k = (changes.get k).getD (d.get k) := by
  have hc : changes.get k = (changes.entries.find? (fun e => e.1 = k)).map Prod.snd := rfl
  rw [patch, get_foldl_change _ _ changes.nodup, hc]
  cases changes.entries.find? (fun e => e.1 = k) <;> rfl

end Reaper.Library.Dict
