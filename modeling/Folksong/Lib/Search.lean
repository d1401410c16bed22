import Mathlib.Tactic

/-!
# Searching a list for the first element that passes a test
-/

namespace Search

variable {α : Type*} {p q : α → Bool} {l : List α}

/-- Two tests, of which `q` is the sharper one, find the same first element exactly when nothing
passes `p` before something has passed `q`. -/
lemma find?_eq_find?_iff (hqp : ∀ a ∈ l, q a → p a) :
    l.find? p = l.find? q ↔
      ∀ pre a post, l = pre ++ a :: post → p a → ∃ b ∈ pre ++ [a], q b := by
  constructor
  · rintro heq pre a post rfl ha
    have hsome : ((pre ++ [a]).find? p).isSome := by
      rw [List.find?_isSome]
      exact ⟨a, List.mem_append_right _ (List.mem_singleton_self a), ha⟩
    obtain ⟨b, hb⟩ := Option.isSome_iff_exists.mp hsome
    refine ⟨b, List.mem_of_find?_eq_some hb, ?_⟩
    have hfound : (pre ++ a :: post).find? p = some b := by
      rw [List.append_cons, List.find?_append, hb]
      rfl
    exact List.find?_some (heq.symm.trans hfound)
  · intro hfirst
    cases hp : l.find? p with
    | none =>
      rw [List.find?_eq_none] at hp
      exact (List.find?_eq_none.mpr fun a ha hq => hp a ha (hqp a ha hq)).symm
    | some a =>
      obtain ⟨ha, pre, post, rfl, hpre⟩ := List.find?_eq_some_iff_append.mp hp
      have hpre' : ∀ b ∈ pre, ¬ q b := by
        intro b hb hq
        have hnot := hpre b hb
        rw [hqp b (List.mem_append_left _ hb) hq] at hnot
        cases hnot
      obtain ⟨b, hb, hq⟩ := hfirst pre a post rfl ha
      have hba : b = a := by
        rcases List.mem_append.mp hb with hb | hb
        · exact absurd hq (hpre' b hb)
        · exact List.mem_singleton.mp hb
      rw [List.find?_append, List.find?_eq_none.mpr hpre', List.find?_cons_of_pos (hba ▸ hq)]
      rfl

/-- The same for the places of what they find. -/
lemma findIdx?_eq_findIdx?_iff (hqp : ∀ a ∈ l, q a → p a) :
    l.findIdx? p = l.findIdx? q ↔
      ∀ pre a post, l = pre ++ a :: post → p a → ∃ b ∈ pre ++ [a], q b := by
  constructor
  · intro heq
    rw [← find?_eq_find?_iff hqp, List.find?_eq_bind_findIdx?_getElem?, heq,
      ← List.find?_eq_bind_findIdx?_getElem?]
  · intro hfirst
    rw [List.findIdx?_eq_fst_find?_zipIdx, List.findIdx?_eq_fst_find?_zipIdx]
    congr 1
    rw [find?_eq_find?_iff]
    · rintro pre ⟨a, i⟩ post heq ha
      have hmap : l = pre.map Prod.fst ++ a :: post.map Prod.fst := by
        have h := congrArg (List.map Prod.fst) heq
        simpa using h
      obtain ⟨b, hb, hq⟩ := hfirst _ _ _ hmap ha
      rw [← List.map_singleton (f := Prod.fst) (a := (a, i)), ← List.map_append] at hb
      obtain ⟨x, hx, rfl⟩ := List.mem_map.mp hb
      exact ⟨x, hx, hq⟩
    · rintro ⟨a, i⟩ hmem hq
      exact hqp a (List.fst_mem_of_mem_zipIdx hmem) hq

end Search
