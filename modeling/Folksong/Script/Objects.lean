import Folksong.Script.Start

/-!
# What the objects of a script hold

The meaning of a script works on a heap, from one directive to the next. Each object is nevertheless
made by the directives of its own block alone, from what the block starts with: whatever stands
between them works on other objects.
-/

namespace Folksong

open Transition

/-! ### The directives of an object -/

/-- A directive: its command, and the words behind the one that names it. -/
abbrev Setting := Callback × List FsStr

/-- The directives that work on the object of the block around the script. -/
def Script.settings : Script → List Setting
  | .nil => []
  | .param k l rest => (k, l.args) :: rest.settings
  | .block k l body _ rest =>
    (if k.child then (k, l.args) :: body.settings else []) ++ rest.settings

/-- The blocks of their own, in the order of their opening braces. -/
def Script.bodies : Script → List (Callback × Script)
  | .nil => []
  | .param _ _ rest => rest.bodies
  | .block k _ body _ rest => (if k.child then [] else [(k, body)]) ++ body.bodies ++ rest.bodies

/-- A directive changes an object, whatever has been called before and whichever pointers are
null. -/
def Sets (lib : Lib) (unset : Heap → Callback → Bool) (o : Obj) (d : Setting) (o' : Obj) : Prop :=
  ∃ (h : Heap) (calls : List LibCall), d.1.meaning lib (unset h) h.calls d.2 o = .ok (o', calls)

section

variable {lib : Lib} {unset : Heap → Callback → Bool} {h h₁ h' : Heap} {p : Ptr}
  {ds ds' : List Setting} {bs bs' : List (Callback × Script)}

/-- The object is made by the directives of the body. -/
def MadeBy (lib : Lib) (unset : Heap → Callback → Bool) (b : Callback × Script) (o : Obj) : Prop :=
  Run (Sets lib unset) (b.1.fresh lib) b.2.settings o

/-- The directives `ds` have worked on the object at `p`, and behind the objects that were there
stand those of the blocks `bs`. -/
structure Heap.Made (lib : Lib) (unset : Heap → Callback → Bool) (h h' : Heap) (p : Ptr)
    (ds : List Setting) (bs : List (Callback × Script)) : Prop where
  here : ∀ o, h.get p = some o → ∃ o', h'.get p = some o' ∧ Run (Sets lib unset) o ds o'
  old : ∀ q o, q ≠ p → h.get q = some o → h'.get q = some o
  length : h'.objs.length = h.objs.length + bs.length
  new : ∀ i b, bs[i]? = some b →
    ∃ o, h'.get (.obj (h.objs.length + i)) = some o ∧ MadeBy lib unset b o

namespace Heap

lemma get_lt {n : Nat} {o : Obj} (ho : h.get (.obj n) = some o) : n < h.objs.length :=
  (List.getElem?_eq_some_iff.mp ho).1

lemma Made.refl (h : Heap) (p : Ptr) : h.Made lib unset h p [] [] where
  here := fun o ho => ⟨o, ho, .nil⟩
  old := fun _ _ _ hq => hq
  length := rfl
  new := fun i b hb => by cases hb

/-- The object that is worked on is there already, or there is none. -/
lemma ne_new (hp : (h.get p).isSome ∨ p = .null) (i : Nat) : .obj (h.objs.length + i) ≠ p := by
  rintro rfl
  rcases hp with hp | hp
  · obtain ⟨o, ho⟩ := Option.isSome_iff_exists.mp hp
    exact absurd (get_lt ho) (Nat.not_lt.mpr (Nat.le_add_right _ _))
  · cases hp

lemma Made.kept (hmade : h.Made lib unset h' p ds bs) {q : Ptr} (hq : (h.get q).isSome) :
    (h'.get q).isSome := by
  obtain ⟨o, ho⟩ := Option.isSome_iff_exists.mp hq
  by_cases hqp : q = p
  · subst hqp
    obtain ⟨o', ho', -⟩ := hmade.here o ho
    exact Option.isSome_iff_exists.mpr ⟨o', ho'⟩
  · exact Option.isSome_iff_exists.mpr ⟨o, hmade.old q o hqp ho⟩

lemma Made.trans (hmade : h.Made lib unset h₁ p ds bs) (hmade' : h₁.Made lib unset h' p ds' bs')
    (hp : (h.get p).isSome ∨ p = .null) : h.Made lib unset h' p (ds ++ ds') (bs ++ bs') := by
  refine ⟨fun o ho => ?_, fun q o hq ho => ?_, ?_, fun i b hb => ?_⟩
  · obtain ⟨o₁, ho₁, hrun⟩ := hmade.here o ho
    obtain ⟨o', ho', hrun'⟩ := hmade'.here o₁ ho₁
    exact ⟨o', ho', hrun.append hrun'⟩
  · exact hmade'.old q o hq (hmade.old q o hq ho)
  · rw [hmade'.length, hmade.length, List.length_append, Nat.add_assoc]
  · rcases Nat.lt_or_ge i bs.length with hi | hi
    · rw [List.getElem?_append_left hi] at hb
      obtain ⟨o, ho, hb⟩ := hmade.new i b hb
      exact ⟨o, hmade'.old _ o (ne_new hp i) ho, hb⟩
    · rw [List.getElem?_append_right hi] at hb
      obtain ⟨o, ho, hb⟩ := hmade'.new (i - bs.length) b hb
      rw [hmade.length, Nat.add_assoc, Nat.add_sub_cancel' hi] at ho
      exact ⟨o, ho, hb⟩

lemma Made.apply {k : Callback} {args : List FsStr}
    (happly : h.apply lib unset k args p = .ok h') : h.Made lib unset h' p [(k, args)] [] := by
  obtain ⟨o, o', calls, ho, hmeaning, rfl⟩ := apply_eq happly
  have ho' : ({ h with calls := calls } : Heap).get p = some o := ho
  refine ⟨fun o₁ ho₁ => ?_, fun q o hq hqo => ?_, ?_, fun i b hb => by cases hb⟩
  · obtain rfl := Option.some.inj (ho.symm.trans ho₁)
    exact ⟨o', get_set_self ho' o', .one ⟨h, calls, hmeaning⟩⟩
  · rw [get_set_ne _ hq]
    exact hqo
  · cases p with
    | obj n => exact List.length_set
    | null | loop | wild => cases ho

/-- A block of its own makes its object, which nothing behind the block works on. -/
lemma Made.own {r : Ptr × Heap} {k : Callback} {body : Script}
    (hopened : h.opened lib k = .ok r)
    (hmade : r.2.Made lib unset h₁ r.1 body.settings bs) (hcomplete : h₁.complete lib r.1 = .ok h')
    (p : Ptr) : h.Made lib unset h' p [] ((k, body) :: bs) := by
  obtain ⟨rfl, -⟩ := opened_eq hopened
  obtain ⟨o, calls, ho, hcompletion, rfl⟩ := complete_eq hcomplete
  have hold : ∀ q o, h.get q = some o → ({ h₁ with calls := calls } : Heap).get q = some o := by
    intro q o hq
    have hne : q ≠ (h.alloc (k.fresh lib)).1 := by
      rintro rfl
      rw [get_alloc_none] at hq
      cases hq
    refine hmade.old q o hne ?_
    rw [get_alloc_ne h _ hne]
    exact hq
  refine ⟨fun o ho => ⟨o, hold p o ho, .nil⟩, fun q o _ hq => hold q o hq, ?_, ?_⟩
  · have hlength := hmade.length
    rw [alloc, List.length_append, List.length_singleton, Nat.add_assoc, Nat.add_comm 1] at hlength
    exact hlength
  · intro i b hb
    cases i with
    | zero =>
      obtain rfl := Option.some.inj hb
      exact hmade.here _ (get_alloc_self h _)
    | succ i =>
      obtain ⟨o, ho, hb⟩ := hmade.new i b hb
      have hindex : (h.alloc (k.fresh lib)).2.objs.length + i = h.objs.length + (i + 1) := by
        rw [alloc, List.length_append, List.length_singleton, Nat.add_assoc, Nat.add_comm 1]
      rw [hindex] at ho
      exact ⟨o, ho, hb⟩

end Heap

/-- What a script has made, when its directives stand in the block of the object at `p`. -/
lemma Script.eval_made (s : Script) :
    ∀ {p : Ptr} {h h' : Heap}, (h.get p).isSome ∨ p = .null → s.eval lib unset p h = .ok h' →
      h.Made lib unset h' p s.settings s.bodies := by
  induction s with
  | nil =>
    intro p h h' _ heval
    cases heval
    exact .refl h p
  | param k l rest ih =>
    intro p h h' hp heval
    obtain ⟨h₁, hok, heval⟩ := Except.bind_eq_ok_iff.mp heval
    have hmade := Heap.Made.apply hok
    exact hmade.trans (ih (hp.imp_left hmade.kept) heval) hp
  | block k l body left rest ihbody ihrest =>
    intro p h h' hp heval
    rw [Script.eval] at heval
    rw [Script.settings, Script.bodies]
    split_ifs at heval ⊢ with hchild
    · obtain ⟨h₂, hblock, heval⟩ := Except.bind_eq_ok_iff.mp heval
      obtain ⟨h₁, hok, hbody⟩ := Except.bind_eq_ok_iff.mp hblock
      have hmade := Heap.Made.apply hok
      have hmade' := hmade.trans (ihbody (hp.imp_left hmade.kept) hbody) hp
      exact hmade'.trans (ihrest (hp.imp_left hmade'.kept) heval) hp
    · obtain ⟨h₃, hblock, heval⟩ := Except.bind_eq_ok_iff.mp heval
      obtain ⟨r, hopen, hclosed⟩ := Except.bind_eq_ok_iff.mp hblock
      obtain ⟨h₂, hbody, hclose⟩ := Except.bind_eq_ok_iff.mp hclosed
      have hr : (r.2.get r.1).isSome := by
        obtain ⟨rfl, -⟩ := Heap.opened_eq hopen
        rw [get_alloc_self]
        rfl
      have hmade := Heap.Made.own hopen (ihbody (.inl hr) hbody) hclose p
      exact hmade.trans (ihrest (hp.imp_left hmade.kept) heval) hp

/-- The objects of a script are those of its blocks. -/
lemma Script.eval_objs {s : Script} {h : Heap} (heval : s.eval lib unset .null ⟨[], []⟩ = .ok h) :
    List.Forall₂ (MadeBy lib unset) s.bodies h.objs := by
  have hmade := s.eval_made (.inr rfl) heval
  rw [List.forall₂_iff_get]
  have hlength : s.bodies.length = h.objs.length := by
    rw [hmade.length]
    exact (Nat.zero_add _).symm
  refine ⟨hlength, fun i hi hi' => ?_⟩
  obtain ⟨o, ho, hb⟩ := hmade.new i _ (List.getElem?_eq_getElem hi)
  have ho : h.objs[i]? = some o := by
    rw [List.length_nil, Nat.zero_add] at ho
    exact ho
  rw [List.getElem?_eq_getElem hi'] at ho
  obtain rfl := Option.some.inj ho
  exact hb

end

end Folksong
