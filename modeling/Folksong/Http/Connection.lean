import Folksong.Http.Request
import Folksong.Lib.Transition

/-!
# The life of a connection (`fs_mod_http.c`)

What libuv does with an accepted connection, as a step relation: it delivers what it has read
while the connection is read, it completes the writes that were submitted, and it calls back for
each `uv_close` once no write is outstanding. `uv_close` stops the reading.
-/

namespace Folksong

open Transition

/-- A read of the connection: bytes, as the callbacks they cause and whether the parser stops
before their end, the end of the file, or an error. -/
inductive ConnRead where
  | data (evs : List HttpEvent) (failed : Bool)
  | eof
  | error
deriving DecidableEq, Repr

/-- What libuv calls back for. -/
inductive ConnEvent where
  | readed (r : ConnRead)
  | writed
  | closed
deriving DecidableEq, Repr

/-- An accepted connection: its request, whether libuv reads it, the writes of `req->writer` that
are not completed, the calls of `uv_close` and of `fs_mod_http_req_release` so far, and whether a
callback has used the request after its release. -/
structure Conn where
  req : HttpReq
  reading : Bool
  outstanding : Nat
  closes : Nat
  released : Nat
  touched : Bool
deriving DecidableEq, Repr

namespace Conn

/-- `fs_mod_http_connection_cb`, after `uv_read_start`. -/
def accepted : Conn := ⟨.fresh, true, 0, 0, 0, false⟩

def uvClose (c : Conn) : Conn := { c with reading := false, closes := c.closes + 1 }

/-- A callback uses the request. -/
def touch (c : Conn) : Conn := { c with touched := c.touched || decide (0 < c.released) }

end Conn

/-- `fs_mod_http_req_readed_cb`. Each answer is a `uv_write`; libuv stops reading by itself after
an error. -/
def fsModHttpReqReadedCb (routes : List Route) (pcre : Pcre) (c : Conn) (r : ConnRead) :
    Conn :=
  match r with
  | .error => { c with reading := false }
  | .eof => c.uvClose
  | .data evs failed =>
    let parsed := Mealy.run (httpStep routes pcre) c.req evs
    let c := { c with req := parsed.1, outstanding := c.outstanding + parsed.2.length }
    if failed then c.uvClose else c

/-- `fs_mod_http_res_writed_cb`, for a write that is no longer outstanding. -/
def fsModHttpResWritedCb (c : Conn) : Conn :=
  { c with outstanding := c.outstanding - 1 }.uvClose

/-- `fs_mod_http_req_release`. -/
def fsModHttpReqRelease (c : Conn) : Conn := { c with released := c.released + 1 }

/-- One callback of libuv. -/
def connStep (routes : List Route) (pcre : Pcre) (c : Conn) (e : ConnEvent) : Option Conn :=
  match e with
  | .readed r => if c.reading then some (fsModHttpReqReadedCb routes pcre c.touch r) else none
  | .writed => if 0 < c.outstanding then some (fsModHttpResWritedCb c.touch) else none
  | .closed =>
    if c.released < c.closes ∧ c.outstanding = 0 then some (fsModHttpReqRelease c.touch) else none

/-- The connection is closed once, its writer is not shared, its request is used while it lives. -/
structure Conn.Safe (c : Conn) : Prop where
  closes : c.closes ≤ 1
  outstanding : c.outstanding ≤ 1
  touched : c.touched = false

/-- The messages that a read completes, and one where it ends the connection. -/
def ConnRead.weight : ConnRead → Nat
  | .data evs failed => evs.count .messageComplete + failed.toNat
  | .eof => 1
  | .error => 0

/-- While a response is being written no message completes, no file ends and no parse fails, and
no read completes two messages, or fails behind one. -/
def Quiet (c : Conn) : ConnEvent → Prop
  | .readed r => c.outstanding + r.weight ≤ 1
  | _ => True

instance (c : Conn) : DecidablePred (Quiet c)
  | .readed _ => inferInstanceAs (Decidable (_ ≤ _))
  | .writed | .closed => .isTrue trivial

section

variable {routes : List Route} {pcre : Pcre}

/-! ### Steps -/

/-- Each message that completes is answered once. -/
lemma length_answers (evs : List HttpEvent) (req : HttpReq) :
    (Mealy.run (httpStep routes pcre) req evs).2.length = evs.count .messageComplete := by
  induction evs generalizing req with
  | nil => rfl
  | cons e evs ih =>
    rw [Mealy.run_cons, List.length_append, ih, List.count_cons]
    cases e <;> simp [httpStep, Nat.add_comm]

/-- The closes there have been and those that outstanding writes will cause. -/
def Conn.load (c : Conn) : Nat := c.closes + c.outstanding

lemma load_readed (c : Conn) (r : ConnRead) :
    (fsModHttpReqReadedCb routes pcre c r).load = c.load + r.weight := by
  cases r with
  | error => rfl
  | eof =>
    simp only [fsModHttpReqReadedCb, Conn.load, Conn.uvClose, ConnRead.weight]
    omega
  | data evs failed =>
    cases failed <;>
      simp [fsModHttpReqReadedCb, Conn.load, Conn.uvClose, ConnRead.weight, length_answers] <;>
      omega

variable (routes pcre) in
lemma readed_unreleased (c : Conn) (r : ConnRead) :
    (fsModHttpReqReadedCb routes pcre c r).released = c.released ∧
      (fsModHttpReqReadedCb routes pcre c r).touched = c.touched := by
  cases r with
  | error => exact ⟨rfl, rfl⟩
  | eof => exact ⟨rfl, rfl⟩
  | data evs failed => cases failed <;> exact ⟨rfl, rfl⟩

/-- The connection is read on only when it was not closed. -/
lemma closes_of_reading {c : Conn} {r : ConnRead}
    (h : (fsModHttpReqReadedCb routes pcre c r).reading = true) :
    (fsModHttpReqReadedCb routes pcre c r).closes = c.closes := by
  cases r with
  | error => rfl
  | eof => cases h
  | data evs failed =>
    cases failed with
    | false => rfl
    | true => cases h

/-- What a step can do. -/
lemma connStep_cases {c c' : Conn} {e : ConnEvent} (h : connStep routes pcre c e = some c') :
    (∃ r, e = .readed r ∧ c.reading = true ∧ c' = fsModHttpReqReadedCb routes pcre c.touch r) ∨
    (e = .writed ∧ 0 < c.outstanding ∧ c' = fsModHttpResWritedCb c.touch) ∨
    (e = .closed ∧ c.released < c.closes ∧ c.outstanding = 0 ∧
      c' = fsModHttpReqRelease c.touch) := by
  cases e with
  | readed r =>
    obtain ⟨hreading, hc'⟩ := Option.ite_none_right_eq_some.mp h
    exact .inl ⟨r, rfl, hreading, (Option.some.inj hc').symm⟩
  | writed =>
    obtain ⟨hout, hc'⟩ := Option.ite_none_right_eq_some.mp h
    exact .inr (.inl ⟨rfl, hout, (Option.some.inj hc').symm⟩)
  | closed =>
    obtain ⟨⟨hclose, hout⟩, hc'⟩ := Option.ite_none_right_eq_some.mp h
    exact .inr (.inr ⟨rfl, hclose, hout, (Option.some.inj hc').symm⟩)

/-! ### Runs -/

/-- What holds of a connection in any run. -/
structure Conn.Wf (c : Conn) : Prop where
  reading : c.reading = true → c.closes = 0
  released : c.released ≤ c.closes
  settled : 0 < c.released → c.outstanding = 0
  touched : c.touched = true → 2 ≤ c.closes

lemma Conn.wf_accepted : Conn.accepted.Wf :=
  ⟨fun _ => rfl, Nat.le_refl 0, nofun, nofun⟩

/-- A request that lives can be used. -/
lemma Conn.touch_of_released {c : Conn} (h : c.released = 0) : c.touch = c := by
  rw [Conn.touch, decide_eq_false (Nat.not_lt.mpr h.le), Bool.or_false]

lemma Conn.Wf.step {c c' : Conn} {e : ConnEvent} (hc : c.Wf)
    (h : connStep routes pcre c e = some c') : c'.Wf := by
  rcases connStep_cases h with ⟨r, rfl, hreading, rfl⟩ | ⟨rfl, hout, rfl⟩ | ⟨rfl, hlt, hout, rfl⟩
  · have hcloses := hc.reading hreading
    have hreleased : c.released = 0 := Nat.le_zero.mp (hcloses ▸ hc.released)
    rw [Conn.touch_of_released hreleased]
    obtain ⟨hrel, htouched⟩ := readed_unreleased routes pcre c r
    refine ⟨fun hread => (closes_of_reading hread).trans hcloses, ?_, ?_, ?_⟩
    · rw [hrel, hreleased]
      exact Nat.zero_le _
    · intro hpos
      rw [hrel, hreleased] at hpos
      cases hpos
    · intro htouch
      rw [htouched] at htouch
      have := hc.touched htouch
      omega
  · -- nothing has been released while a write is outstanding
    have hreleased : c.released = 0 := by
      by_contra hpos
      have := hc.settled (Nat.pos_of_ne_zero hpos)
      omega
    rw [Conn.touch_of_released hreleased]
    refine ⟨nofun, ?_, ?_, ?_⟩
    · exact hreleased ▸ Nat.zero_le _
    · intro hpos
      exact absurd hreleased (Nat.pos_iff_ne_zero.mp hpos)
    · intro htouch
      exact Nat.le_succ_of_le (hc.touched htouch)
  · refine ⟨?_, hlt, fun _ => hout, ?_⟩
    · intro hread
      have := hc.reading hread
      omega
    · intro htouch
      rcases Bool.or_eq_true_iff.mp htouch with htouch | hpos
      · exact hc.touched htouch
      · have := of_decide_eq_true hpos
        change 2 ≤ c.closes
        omega

lemma Conn.Wf.safe {c : Conn} (hc : c.Wf) (hload : c.load ≤ 1) : c.Safe := by
  rw [Conn.load] at hload
  refine ⟨by omega, by omega, ?_⟩
  apply Bool.eq_false_iff.mpr
  intro htouched
  have := hc.touched htouched
  omega

/-- A step keeps the load within one exactly where it is quiet. -/
lemma load_le_one_iff {c c' : Conn} {e : ConnEvent} (hc : c.Wf)
    (h : connStep routes pcre c e = some c') : c'.load ≤ 1 ↔ c.load ≤ 1 ∧ Quiet c e := by
  rcases connStep_cases h with ⟨r, rfl, hreading, rfl⟩ | ⟨rfl, hout, rfl⟩ | ⟨rfl, hlt, hout, rfl⟩
  · have hcloses := hc.reading hreading
    rw [load_readed, Quiet]
    simp only [Conn.load, Conn.touch, hcloses]
    omega
  · have hload : (fsModHttpResWritedCb c.touch).load = c.load := by
      simp only [Conn.load, fsModHttpResWritedCb, Conn.uvClose, Conn.touch]
      omega
    rw [hload]
    exact (and_iff_left trivial).symm
  · exact (and_iff_left trivial).symm

lemma Conn.wf_of_run {ls : List ConnEvent} {c : Conn}
    (h : Run (Step (connStep routes pcre)) .accepted ls c) : c.Wf :=
  h.invariant (fun _ _ _ hc hl => hc.step hl) Conn.wf_accepted

/-- The runs that keep the load within one are the quiet ones. -/
lemma load_le_one_iff_run {ls : List ConnEvent} {c : Conn}
    (h : Run (Step (connStep routes pcre)) .accepted ls c) :
    c.load ≤ 1 ↔ Run (Guarded Quiet (Step (connStep routes pcre))) .accepted ls c := by
  constructor
  · intro hload
    induction h with
    | nil => exact .nil
    | snoc h hl ih =>
      obtain ⟨hload, hquiet⟩ := (load_le_one_iff (Conn.wf_of_run h) hl).mp hload
      exact (ih hload).snoc ⟨hquiet, hl⟩
  · intro hrun
    refine (hrun.invariant_guarded (I := fun c => c.Wf ∧ c.load ≤ 1) ?_
      ⟨Conn.wf_accepted, Nat.zero_le 1⟩).2
    rintro c e c' ⟨hc, hload⟩ hquiet hl
    exact ⟨hc.step hl, (load_le_one_iff hc hl).mpr ⟨hload, hquiet⟩⟩

/-- libuv completes the writes that are outstanding, and each completion closes. -/
lemma run_writed (routes : List Route) (pcre : Pcre) (n : Nat) (c : Conn)
    (hn : c.outstanding = n) :
    ∃ c', Run (Step (connStep routes pcre)) c (List.replicate n .writed) c' ∧
      c'.closes = c.load := by
  induction n generalizing c with
  | zero => exact ⟨c, .nil, by simp [Conn.load, hn]⟩
  | succ n ih =>
    have hstep : Step (connStep routes pcre) c .writed (fsModHttpResWritedCb c.touch) :=
      if_pos (hn ▸ Nat.succ_pos n)
    obtain ⟨c', hrun, hcloses⟩ := ih (fsModHttpResWritedCb c.touch)
      (by simp [fsModHttpResWritedCb, Conn.uvClose, Conn.touch, hn])
    refine ⟨c', .cons hstep hrun, ?_⟩
    rw [hcloses]
    simp only [Conn.load, fsModHttpResWritedCb, Conn.uvClose, Conn.touch, hn]
    omega

/-- A connection is safe all along a run, and in what the completions of its writes make of it,
exactly when each step of the run is quiet. -/
theorem safe_iff_quiet {ls : List ConnEvent} {c : Conn}
    (h : Run (Step (connStep routes pcre)) .accepted ls c) :
    (∀ ls' k c', ls' <+: ls →
      Run (Step (connStep routes pcre)) .accepted (ls' ++ List.replicate k .writed) c' → c'.Safe)
        ↔ Run (Guarded Quiet (Step (connStep routes pcre))) .accepted ls c := by
  constructor
  · intro hsafe
    obtain ⟨c', hrun, hcloses⟩ := run_writed routes pcre _ c rfl
    have hc' := hsafe ls c.outstanding c' (List.prefix_refl ls) (h.append hrun)
    rw [← load_le_one_iff_run h, ← hcloses]
    exact hc'.closes
  · rintro hquiet ls' k c' ⟨ls'', rfl⟩ hrun
    obtain ⟨c₁, hrun₁, hrun₂⟩ := run_append_iff.mp hrun
    obtain ⟨c₂, hquiet₂, -⟩ := run_append_iff.mp hquiet
    obtain rfl := hrun₁.deterministic hquiet₂.unguarded
    -- the completions are quiet, too
    have hwrited : Run (Guarded Quiet _) c₁ (List.replicate k .writed) c' :=
      hrun₂.guarded fun e he _ => List.eq_of_mem_replicate he ▸ trivial
    have hload := (load_le_one_iff_run hrun).mpr (hquiet₂.append hwrited)
    exact (Conn.wf_of_run hrun).safe hload

end

/-- One request, its response and its end. -/
theorem safe_iff_quiet_once :
    (∀ ls' k c', ls' <+: [.readed (.data [.url [47], .headersComplete, .messageComplete] false),
        .writed, .closed] →
      Run (Step (connStep [] .refusing)) .accepted (ls' ++ List.replicate k .writed) c' →
        c'.Safe)
      ↔ Run (Guarded Quiet (Step (connStep [] .refusing))) .accepted
        [.readed (.data [.url [47], .headersComplete, .messageComplete] false), .writed, .closed]
        ⟨fsModHttpOnUrl .fresh [47], false, 0, 1, 1, false⟩ :=
  safe_iff_quiet (run_step_iff.mpr rfl)

/-- The client has sent its request and no more: the end of its file closes the connection, and
so does the completion of the response. -/
theorem not_safe :
    ¬ ∀ routes pcre ls c, Run (Step (connStep routes pcre)) .accepted ls c → c.Safe := by
  intro hall
  have hrun := hall [] .refusing
    [.readed (.data [.url [47], .headersComplete, .messageComplete] false), .readed .eof, .writed]
    ⟨fsModHttpOnUrl .fresh [47], false, 0, 2, 0, false⟩ (run_step_iff.mpr rfl)
  exact absurd hrun.closes (by decide)

end Folksong
