import Folksong.Conf.Parse
import Folksong.Mod.Table

/-!
# The contexts of open blocks

`fs_arr_push` moves `run->ctx` when it is full, and the frames that are open keep pointing into
the storage it has released. As long as no push of this kind happens under an open frame, every
frame yields the context its block was opened with.
-/

namespace Folksong

variable {μ κ H : Type}

/-- The slots of all frames lie in the storage in use. -/
def Conf.Current (c : Conf μ κ H) : Prop := ∀ frame ∈ c.stMod, frame.ctx.gen = c.ctx.gen

lemma Conf.Kept.current {env : Env μ κ H} {c : Conf μ κ H} {bs : List (Opened μ κ)}
    (h : c.Kept env bs) : c.Current := by
  have hall : ∀ (fs : List (Frame μ κ)) (bs : List (Opened μ κ)),
      List.Forall₂ (Frame.Holds env c.ctx c.ctx.eleCount) fs bs →
        ∀ frame ∈ fs, frame.ctx.gen = c.ctx.gen := by
    intro fs bs hk
    induction hk with
    | nil => exact fun _ hf => by cases hf
    | cons hf _ ih => exact List.forall_mem_cons.mpr ⟨hf.current, ih⟩
  exact hall _ _ h

variable [DecidableEq μ]

/-- In every run whose directives push no slot that would move `run->ctx` under an open frame,
every frame holds the context its block was opened with, and this is the context the callbacks
have been called with. -/
theorem kept_of_run (env : Env μ κ H) (io : ReadOutcome) (mode : ParseMode) {f f' : FsFile}
    {tokens : FsArr FsStr} {heap : H} {c : Conf μ κ H} {ls : List Taking}
    (h : Transition.Run (Transition.Guarded (KeepsRoom env) (ParseStep env io mode))
      (f, Conf.start tokens heap) ls (f', c)) :
    ∃ bs, Traced env c.log bs ∧ c.Current ∧
      List.Forall₂ (fun frame b => frame.mod = b.mod ∧ frame.cmd = b.cmd ∧
        c.deref env frame.ctx = b.ctx) c.stMod bs := by
  obtain ⟨bs, hI⟩ := inv_of_run h ⟨[], inv_start env tokens heap⟩
  refine ⟨bs, hI.traced, hI.kept.current, hI.kept.imp fun frame b hf => ⟨hf.mod, hf.cmd, ?_⟩⟩
  rw [Conf.deref, if_pos hf.current, hf.value]

/-- An http block with a publisher in it, both open. -/
theorem kept_of_run_publisher :
    ∃ f c ls, Transition.Run (Transition.Guarded (KeepsRoom sampleEnv)
        (ParseStep sampleEnv (fun _ => true) .param))
        (sampleAt (bytes "http\x7bkafka a\x7b")) ls (f, c) ∧ (c.stMod.length == 2) = true ∧
      ∃ bs, Traced sampleEnv c.log bs ∧ c.Current ∧
        List.Forall₂ (fun frame b => frame.mod = b.mod ∧ frame.cmd = b.cmd ∧
          c.deref sampleEnv frame.ctx = b.ctx) c.stMod bs := by
  obtain ⟨ls, ⟨f, c⟩, hrun, hlen⟩ := Transition.exists_run_of_follow
    (show ((Transition.follow (parseNext sampleEnv (fun _ => true) .param) (KeepsRoom sampleEnv) 2
      (sampleAt (bytes "http\x7bkafka a\x7b"))).any fun s => s.2.stMod.length == 2) = true
      by decide +kernel)
  exact ⟨f, c, ls, hrun, hlen, kept_of_run sampleEnv (fun _ => true) .param hrun⟩

/-- Eight publishers in one http block need nine context slots, where `fs_run_init` has made
room for eight. -/
theorem not_current_of_publishers :
    ¬ ∀ (f f' : FsFile) (c : Engine) (ls : List Taking),
      Transition.Run (ParseStep sampleEnv (fun _ => true) .param) (f, sampleStart) ls (f', c) →
        c.Current := by
  intro h
  obtain ⟨ls, ⟨f, c⟩, hrun, hstale⟩ := Transition.exists_run_of_follow
    (show ((Transition.follow (parseNext sampleEnv (fun _ => true) .param) (fun _ _ => True) 17
      (sampleAt (bytes ("http\x7b" ++ "kafka a\x7b\x7dkafka a\x7b\x7dkafka a\x7b\x7dkafka a\x7b\x7d" ++
        "kafka a\x7b\x7dkafka a\x7b\x7dkafka a\x7b\x7dkafka a\x7b\x7d")))).any
          fun s => s.2.stMod.any fun frame => frame.ctx.gen != s.2.ctx.gen) = true
      by decide +kernel)
  obtain ⟨frame, hframe, hgen⟩ := List.any_eq_true.mp hstale
  rw [bne_iff_ne] at hgen
  exact hgen (h _ _ _ _ hrun.unguarded frame hframe)

end Folksong
