import Mathlib.Data.List.Nodup
import Mathlib.Data.List.Perm.Basic

/-
  Lists of keys and values, read by `List.lookup`.
-/

namespace Concolic

variable {α β : Type} [BEq α] [LawfulBEq α]

theorem lookup_filter_of_pos (es : List (α × β)) (q : α → Bool) {key : α} (h : q key = true) :
    (es.filter fun e => q e.1).lookup key = es.lookup key := by
  induction es with
  | nil => rfl
  | cons e es ih =>
    obtain ⟨k, v⟩ := e
    by_cases hk : key = k
    · subst hk
      simp [List.filter, h]
    · have hbeq : (key == k) = false := by simpa using hk
      cases hq : q k <;> simp [List.filter, hq, List.lookup_cons, hbeq, ih]

theorem lookup_filter_of_neg (es : List (α × β)) (q : α → Bool) {key : α} (h : q key = false) :
    (es.filter fun e => q e.1).lookup key = none := by
  rw [List.lookup_eq_none_iff]
  intro e he
  have hq : q e.1 = true := (List.mem_filter.mp he).2
  rw [bne_iff_ne]
  rintro rfl
  rw [h] at hq
  cases hq

theorem lookup_eq_none_of_notMem {es : List (α × β)} {key : α} (h : key ∉ es.map Prod.fst) :
    es.lookup key = none := by
  refine List.lookup_eq_none_iff.mpr fun e he => bne_iff_ne.mpr ?_
  rintro rfl
  exact h (List.mem_map.mpr ⟨e, he, rfl⟩)

theorem lookup_eq_some_iff {es : List (α × β)} (hnodup : (es.map Prod.fst).Nodup)
    {key : α} {v : β} : es.lookup key = some v ↔ (key, v) ∈ es := by
  induction es with
  | nil => simp
  | cons e es ih =>
    obtain ⟨k, w⟩ := e
    rw [List.map_cons, List.nodup_cons] at hnodup
    by_cases hk : key = k
    · subst hk
      rw [List.lookup_cons, beq_self_eq_true, List.mem_cons]
      constructor
      · intro h
        exact .inl (by rw [Option.some.inj h])
      · rintro (h | h)
        · rw [(Prod.mk.inj h).2]
        · exact absurd (List.mem_map_of_mem (f := Prod.fst) h) hnodup.1
    · rw [List.lookup_cons, beq_false_of_ne hk, List.mem_cons]
      show es.lookup key = some v ↔ _
      rw [ih hnodup.2]
      constructor
      · exact .inr
      · rintro (h | h)
        · exact absurd (Prod.mk.inj h).1 hk
        · exact h

theorem lookup_perm {es es' : List (α × β)} (h : es.Perm es') (hnodup : (es.map Prod.fst).Nodup)
    (key : α) : es.lookup key = es'.lookup key := by
  have hnodup' : (es'.map Prod.fst).Nodup := (h.map Prod.fst).nodup_iff.mp hnodup
  refine Option.ext fun v => ?_
  rw [lookup_eq_some_iff hnodup, lookup_eq_some_iff hnodup', h.mem_iff]

end Concolic
