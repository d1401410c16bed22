import Folksong.Http.Strays
import Folksong.Lib.Pool

/-!
# The connections of a server (`fs_mod_http.c`)

Connections are accepted at any time, and libuv calls back for any of them in any order. They share
the heap, and each of them has its own part of it.
-/

namespace Folksong

open Transition

/-- An accepted connection with its blocks. -/
structure Peer where
  conn : Conn
  blocks : ReqBlocks

structure Server where
  heap : Ledger.Heap
  peers : List Peer

/-- A connection that waits is accepted, or libuv calls back for one that has been. -/
inductive ServerEvent where
  | accept (accepted : Bool)
  | on (i : Nat) (e : ConnEvent)

/-- `fs_mod_http_connection_cb`: the request is left as it is where `uv_tcp_init` or `uv_accept`
fails. -/
def Conn.opened (accepted : Bool) : Conn := { Conn.accepted with reading := accepted }

def Server.start : Server := ⟨.empty, []⟩

def serverStep (routes : List Route) (pcre : Pcre) (pieces : Nat → List UInt8 → Nat)
    (s : Server) : ServerEvent → Option Server
  | .accept accepted =>
    let r := allocReq.run s.heap
    some ⟨r.2, s.peers ++ [⟨.opened accepted, r.1⟩]⟩
  | .on i e =>
    (s.peers[i]?).bind fun p => (connStep routes pcre p.conn e).map fun conn =>
      let r := (p.blocks.onConnEvent routes pcre pieces p.conn.req e).run s.heap
      ⟨r.2, s.peers.set i ⟨conn, r.1⟩⟩

/-- `http_parser` calls back for a header with its name first. -/
def WellParsed (s : Server) : ServerEvent → Prop
  | .accept _ => True
  | .on i e => ∀ p, s.peers[i]? = some p → FieldFirst p.conn.req e.events

/-- What a connection has in the heap. -/
def Peer.held (p : Peer) : Multiset Nat :=
  if p.conn.released = 0 then p.blocks.all else p.blocks.leaked

/-- What an event is for the connections. -/
def ServerEvent.label : ServerEvent → Pool.Label Bool ConnEvent
  | .accept accepted => .start accepted
  | .on i e => .deliver i e

/-- What libuv has called the connection number `i` back for. -/
def callbacks (i : Nat) (ls : List ServerEvent) : List ConnEvent :=
  Pool.delivered i (ls.map ServerEvent.label)

section

variable {routes : List Route} {pcre : Pcre} {pieces : Nat → List UInt8 → Nat}
variable {s s' : Server} {l : ServerEvent} {ls : List ServerEvent}

/-! ### One connection -/

/-- The connections of a server are a pool. -/
lemma conns_of_run (h : Run (Step (serverStep routes pcre pieces)) s ls s') :
    Run (Step (Pool.step (connStep routes pcre) fun accepted => [Conn.opened accepted]))
      (s.peers.map Peer.conn) (ls.map ServerEvent.label) (s'.peers.map Peer.conn) := by
  induction h with
  | nil => exact .nil
  | @snoc s₁ s₂ ls l _ hl ih =>
    rw [List.map_append]
    refine ih.append (.one ?_)
    cases l with
    | accept accepted =>
      cases hl
      simp [ServerEvent.label, Step, Pool.step]
    | on i e =>
      obtain ⟨p, hp, hl⟩ := Option.bind_eq_some_iff.mp hl
      obtain ⟨conn, hconn, rfl⟩ := Option.map_eq_some_iff.mp hl
      simp [ServerEvent.label, Step, Pool.step, hp, hconn, List.map_set]

lemma selections_append (req : HttpReq) (evs evs' : List HttpEvent) :
    selections routes pcre req (evs ++ evs') = selections routes pcre req evs +
      selections routes pcre (Mealy.run (httpStep routes pcre) req evs).1 evs' := by
  induction evs generalizing req with
  | nil => simp [selections]
  | cons e evs ih =>
    rw [List.cons_append, selections, ih, selections, Mealy.run_cons, Nat.add_assoc]

/-- The texts of a connection are those of its callbacks. -/
lemma readed_req (c : Conn) (r : ConnRead) :
    (fsModHttpReqReadedCb routes pcre c r).req =
      (Mealy.run (httpStep routes pcre) c.req (ConnEvent.readed r).events).1 := by
  cases r with
  | data evs failed => cases failed <;> rfl
  | eof | error => rfl

/-- What holds of a connection behind the callbacks `es`, unless one of them was late. -/
structure Peer.Sound (routes : List Route) (pcre : Pcre) (h : Ledger.Heap)
    (es : List ConnEvent) (p : Peer) : Prop where
  wf : p.conn.Wf
  untouched : p.conn.touched = false
  req : p.conn.req =
    (Mealy.run (httpStep routes pcre) .fresh (es.flatMap ConnEvent.events)).1
  fits : p.blocks.Fits p.conn.req
    (selections routes pcre .fresh (es.flatMap ConnEvent.events))
  dead : 0 < p.conn.released → p.blocks.req < h.next ∧ p.blocks.req ∉ h.live

variable {h : Ledger.Heap} {es : List ConnEvent} {p : Peer} {e : ConnEvent} {conn : Conn}
variable {rest : Multiset Nat}

/-- What happens to others does not matter to a connection. -/
lemma Peer.Sound.later {α : Type} {cmd : Ledger.Command α} (hp : p.Sound routes pcre h es)
    (hcmd : Ledger.Steady cmd) : p.Sound routes pcre (cmd.run h).2 es where
  wf := hp.wf
  untouched := hp.untouched
  req := hp.req
  fits := hp.fits
  dead hreleased := by
    obtain ⟨hlt, hdead⟩ := hp.dead hreleased
    exact ⟨hlt.trans_le (hcmd.next h), fun hlive => hdead (hcmd.live h _ hlt hlive)⟩

lemma Peer.sound_opened {accepted : Bool} {m : ReqBlocks} (hm : m.Fits .fresh 0) :
    Peer.Sound routes pcre h [] ⟨.opened accepted, m⟩ :=
  ⟨⟨fun _ => rfl, le_rfl, nofun, nofun⟩, rfl, rfl, hm, nofun⟩

lemma Peer.held_of_released (hreleased : p.conn.released = 0) : p.held = p.blocks.all :=
  if_pos hreleased

/-- A request that is released is gone. -/
lemma ReqBlocks.req_not_mem (m : ReqBlocks) (h : (m.all + rest).Nodup) :
    m.req ∉ m.leaked + rest := by
  rw [ReqBlocks.all, add_assoc] at h
  have hkept : m.req ∈ m.kept := by simp [ReqBlocks.kept]
  exact Multiset.disjoint_left.mp (Multiset.nodup_add.mp h).2.2 hkept

variable (pieces) in
/-- A callback keeps the blocks of its connection, or comes too late. -/
lemma Peer.Sound.step (hp : p.Sound routes pcre h es) (hholds : h.Holds (p.held + rest))
    (hfirst : FieldFirst p.conn.req e.events) (hconn : connStep routes pcre p.conn e = some conn) :
    let r := (p.blocks.onConnEvent routes pcre pieces p.conn.req e).run h
    (Peer.mk conn r.1).Sound routes pcre r.2 (es ++ [e]) ∧
        r.2.Holds ((Peer.mk conn r.1).held + rest) ∧ r.2.misused = h.misused ∨
      r.2.misused = true ∧ conn.touched = true := by
  have hwf := hp.wf.step hconn
  rcases connStep_cases hconn with
    ⟨r, rfl, hreading, rfl⟩ | ⟨rfl, hout, rfl⟩ | ⟨rfl, hlt, hout, rfl⟩
  · have hreleased : p.conn.released = 0 :=
      Nat.le_zero.mp ((hp.wf.reading hreading) ▸ hp.wf.released)
    rw [Conn.touch_of_released hreleased] at hwf ⊢
    rw [Peer.held_of_released hreleased] at hholds
    obtain ⟨hrel, htouched⟩ := readed_unreleased routes pcre p.conn r
    obtain ⟨_, ⟨rfl, hfits⟩, hholds', hmisused⟩ :=
      onReaded_triple pieces r hp.fits hfirst h rest hholds
    refine .inl ⟨⟨hwf, htouched.trans hp.untouched, ?_, ?_, fun hpos => ?_⟩, ?_, hmisused⟩
    · rw [readed_req, hp.req, List.flatMap_append, List.flatMap_singleton, Mealy.run_append]
    · rw [readed_req, List.flatMap_append, List.flatMap_singleton, selections_append, ← hp.req]
      exact hfits
    · rw [hrel, hreleased] at hpos
      cases hpos
    · rw [Peer.held_of_released (hrel.trans hreleased)]
      exact hholds'
  · have hreleased : p.conn.released = 0 := by
      by_contra hpos
      exact absurd (hp.wf.settled (Nat.pos_of_ne_zero hpos)) hout.ne'
    rw [Conn.touch_of_released hreleased] at hwf ⊢
    rw [Peer.held_of_released hreleased] at hholds
    obtain ⟨_, ⟨rfl, hm⟩, hholds', hmisused⟩ :=
      onWrited_triple routes pcre pieces p.conn.req p.blocks h rest hholds
    have hes : (es ++ [ConnEvent.writed]).flatMap ConnEvent.events
        = es.flatMap ConnEvent.events := by
      rw [List.flatMap_append, List.flatMap_singleton]
      exact List.append_nil _
    refine .inl ⟨⟨hwf, hp.untouched, ?_, ?_, fun hpos => ?_⟩, ?_, hmisused⟩
    · rw [hes]
      exact hp.req
    · rw [hes, hm]
      exact hp.fits
    · exact absurd hreleased (Nat.pos_iff_ne_zero.mp hpos)
    · rw [Peer.held_of_released (by exact hreleased), hm]
      exact hholds'
  · by_cases hreleased : p.conn.released = 0
    · rw [Conn.touch_of_released hreleased] at hwf ⊢
      rw [Peer.held_of_released hreleased] at hholds
      obtain ⟨_, ⟨rfl, hm⟩, hholds', hmisused⟩ :=
        onClosed_triple routes pcre pieces hp.fits h rest hholds
      have hes : (es ++ [ConnEvent.closed]).flatMap ConnEvent.events
          = es.flatMap ConnEvent.events := by
        rw [List.flatMap_append, List.flatMap_singleton]
        exact List.append_nil _
      refine .inl ⟨⟨hwf, hp.untouched, ?_, ?_, fun _ => ?_⟩, ?_, hmisused⟩
      · rw [hes]
        exact hp.req
      · rw [hes, hm]
        exact hp.fits
      · rw [hm]
        have hmem : p.blocks.req ∈ p.blocks.all + rest :=
          Multiset.mem_add.mpr (.inl (req_mem_all p.blocks))
        refine ⟨(hholds.below _ hmem).trans_le ((steady_onConnEvent _ _ _ _ _ _).next h), ?_⟩
        rw [hholds'.live]
        exact p.blocks.req_not_mem hholds.nodup
      · rw [Peer.held, if_neg (by exact Nat.succ_ne_zero _), hm]
        exact hholds'
    · obtain ⟨-, hdead⟩ := hp.dead (Nat.pos_of_ne_zero hreleased)
      refine .inr ⟨misused_onConnEvent hdead, Bool.or_eq_true_iff.mpr (.inr ?_)⟩
      exact decide_eq_true (Nat.pos_of_ne_zero hreleased)

/-! ### All connections -/

/-- What holds of a server while no callback was late. -/
structure Server.Sound (routes : List Route) (pcre : Pcre) (ls : List ServerEvent)
    (s : Server) : Prop where
  misused : s.heap.misused = false
  holds : s.heap.Holds (s.peers.map Peer.held).sum
  peers : ∀ (i : Nat) (p : Peer), s.peers[i]? = some p →
    p.Sound routes pcre s.heap (callbacks i ls)

/-- A callback was late, and the heap is misused. -/
def Server.Late (s : Server) : Prop :=
  s.heap.misused = true ∧ ∃ p ∈ s.peers, p.conn.touched = true

lemma Server.sound_start : Server.start.Sound routes pcre [] := by
  refine ⟨rfl, Ledger.holds_empty, fun i p hp => ?_⟩
  rw [Server.start, List.getElem?_nil] at hp
  cases hp

variable (ls) in
lemma callbacks_accept (i : Nat) (accepted : Bool) :
    callbacks i (ls ++ [.accept accepted]) = callbacks i ls := by
  rw [callbacks, List.map_append, Pool.delivered_append]
  exact List.append_nil _

variable (ls) in
lemma callbacks_self (i : Nat) (e : ConnEvent) :
    callbacks i (ls ++ [.on i e]) = callbacks i ls ++ [e] := by
  rw [callbacks, List.map_append, Pool.delivered_append, List.map_singleton, ServerEvent.label,
    Pool.delivered_self, callbacks]

variable (ls) in
lemma callbacks_ne {i j : Nat} (hne : j ≠ i) (e : ConnEvent) :
    callbacks i (ls ++ [.on j e]) = callbacks i ls := by
  rw [callbacks, List.map_append, Pool.delivered_append, List.map_singleton, ServerEvent.label,
    Pool.delivered_ne hne, List.append_nil, callbacks]

/-- Nothing was called back for a connection that is not there yet. -/
lemma callbacks_eq_nil (h : Run (Step (serverStep routes pcre pieces)) .start ls s) {i : Nat}
    (hi : s.peers.length ≤ i) : callbacks i ls = [] :=
  Pool.delivered_eq_nil (conns_of_run h) (by simpa using hi)

lemma Server.Sound.accept (hs : s.Sound routes pcre ls)
    (hnew : callbacks s.peers.length ls = []) {accepted : Bool}
    (hl : Step (serverStep routes pcre pieces) s (.accept accepted) s') :
    s'.Sound routes pcre (ls ++ [.accept accepted]) := by
  obtain rfl := Option.some.inj hl
  obtain ⟨_, ⟨rfl, hfits⟩, hholds, hmisused⟩ :=
    allocReq_triple s.heap (s.peers.map Peer.held).sum (by rw [zero_add]; exact hs.holds)
  refine ⟨hmisused.trans hs.misused, ?_, fun i p hp => ?_⟩
  · rw [List.map_append, List.sum_append, add_comm]
    simpa [Peer.held_of_released, Conn.opened, Conn.accepted] using hholds
  · rw [callbacks_accept]
    by_cases hi : i < s.peers.length
    · rw [List.getElem?_append_left hi] at hp
      exact (hs.peers i p hp).later steady_allocReq
    · rw [Nat.not_lt] at hi
      rw [List.getElem?_append_right hi] at hp
      obtain ⟨hzero, rfl⟩ := List.getElem?_eq_some_iff.mp hp
      obtain rfl : i = s.peers.length := by
        rw [List.length_singleton] at hzero
        omega
      rw [hnew]
      simpa using Peer.sound_opened hfits

lemma Server.Sound.on (hs : s.Sound routes pcre ls) {i : Nat} (hparsed : WellParsed s (.on i e))
    (hl : Step (serverStep routes pcre pieces) s (.on i e) s') :
    s'.Sound routes pcre (ls ++ [.on i e]) ∨ s'.Late := by
  obtain ⟨p, hp, hl⟩ := Option.bind_eq_some_iff.mp hl
  obtain ⟨conn, hconn, rfl⟩ := Option.map_eq_some_iff.mp hl
  obtain ⟨rest, hsum, hset⟩ := Ledger.exists_share Peer.held hp
  have hi := (List.getElem?_eq_some_iff.mp hp).1
  rcases (hs.peers i p hp).step pieces (hsum ▸ hs.holds) (hparsed p hp) hconn with
    ⟨hsound, hholds, hmisused⟩ | ⟨hmisused, htouched⟩
  · refine .inl ⟨hmisused.trans hs.misused, by rw [hset]; exact hholds, fun j q hq => ?_⟩
    by_cases hj : i = j
    · subst hj
      rw [List.getElem?_set_self hi] at hq
      obtain rfl := Option.some.inj hq
      rw [callbacks_self]
      exact hsound
    · rw [List.getElem?_set_ne hj] at hq
      rw [callbacks_ne ls hj]
      exact (hs.peers j q hq).later (steady_onConnEvent _ _ _ _ _ _)
  · refine .inr ⟨hmisused, _, List.mem_of_getElem? (List.getElem?_set_self hi), htouched⟩

lemma touched_of_step {c c' : Conn} (hc : c.touched = true)
    (h : connStep routes pcre c e = some c') : c'.touched = true := by
  have htouch : c.touch.touched = true := Bool.or_eq_true_iff.mpr (.inl hc)
  rcases connStep_cases h with ⟨r, rfl, -, rfl⟩ | ⟨rfl, -, rfl⟩ | ⟨rfl, -, -, rfl⟩
  · exact (readed_unreleased routes pcre c.touch r).2.trans htouch
  · exact htouch
  · exact htouch

/-- What was late stays so. -/
lemma Server.Late.step (hs : s.Late) (hl : Step (serverStep routes pcre pieces) s l s') :
    s'.Late := by
  obtain ⟨hmisused, p, hp, htouched⟩ := hs
  cases l with
  | accept accepted =>
    obtain rfl := Option.some.inj hl
    exact ⟨steady_allocReq.misused _ hmisused, p, List.mem_append_left _ hp, htouched⟩
  | on i e =>
    obtain ⟨q, hq, hl⟩ := Option.bind_eq_some_iff.mp hl
    obtain ⟨conn, hconn, rfl⟩ := Option.map_eq_some_iff.mp hl
    refine ⟨(steady_onConnEvent _ _ _ _ _ _).misused _ hmisused, ?_⟩
    obtain ⟨j, hj⟩ := List.mem_iff_getElem?.mp hp
    by_cases hij : i = j
    · subst hij
      obtain rfl := Option.some.inj (hj.symm.trans hq)
      have hi := (List.getElem?_eq_some_iff.mp hj).1
      exact ⟨_, List.mem_of_getElem? (List.getElem?_set_self hi), touched_of_step htouched hconn⟩
    · exact ⟨p, List.mem_of_getElem? ((List.getElem?_set_ne hij).trans hj), htouched⟩

/-- A server is sound, or a callback was late. -/
lemma sound_or_late
    (h : Run (Guarded WellParsed (Step (serverStep routes pcre pieces))) .start ls s) :
    s.Sound routes pcre ls ∨ s.Late := by
  induction h with
  | nil => exact .inl Server.sound_start
  | @snoc s₁ s₂ ls l hrun hl ih =>
    obtain ⟨hparsed, hl⟩ := hl
    rcases ih with hsound | hlate
    · cases l with
      | accept accepted =>
        exact .inl (hsound.accept (callbacks_eq_nil hrun.unguarded le_rfl) hl)
      | on i e => exact hsound.on hparsed hl
    · exact .inr (hlate.step hl)

/-- In every run, the heap holds the blocks of the connections, each in its own part, as long as
it is not misused; it is misused exactly when a callback was delivered for a request that had been
released. -/
theorem misused_iff_touched
    (h : Run (Guarded WellParsed (Step (serverStep routes pcre pieces))) .start ls s) :
    (s.heap.misused = false → s.heap.Holds (s.peers.map Peer.held).sum) ∧
    (s.heap.misused = true ↔ ∃ p ∈ s.peers, p.conn.touched = true) := by
  rcases sound_or_late h with hsound | ⟨hmisused, htouched⟩
  · refine ⟨fun _ => hsound.holds, fun hmisused => ?_, ?_⟩
    · rw [hsound.misused] at hmisused
      cases hmisused
    · rintro ⟨p, hp, htouched⟩
      obtain ⟨i, hi⟩ := List.mem_iff_getElem?.mp hp
      rw [(hsound.peers i p hi).untouched] at htouched
      cases htouched
  · refine ⟨fun hno => ?_, fun _ => htouched, fun _ => hmisused⟩
    rw [hmisused] at hno
    cases hno

/-- A server whose only route is a proxy. -/
def sampleStep : Server → ServerEvent → Option Server :=
  serverStep [.proxy .toB] .matching fun _ _ => 1

lemma wellParsed_of_nameFirst {s : Server} {l : ServerEvent}
    (h : ∀ i e, l = .on i e → NameFirst e.events) : WellParsed s l := by
  cases l with
  | accept accepted => trivial
  | on i e => exact fun p _ _ => h i e rfl

/-- The first client ends its file behind its request, and is closed twice. -/
def latePeer : List ServerEvent :=
  [.accept true, .accept true,
    .on 0 (.readed (.data [.url [47], .headerField [107], .headerValue [118], .headersComplete,
      .messageComplete] false)),
    .on 0 (.readed .eof), .on 1 (.readed .eof), .on 0 .writed, .on 0 .closed, .on 0 .closed]

/-- The server behind it. -/
def latePeerEnd : Server := (exec sampleStep .start latePeer).getD .start

lemma run_latePeer :
    Run (Guarded WellParsed (Step sampleStep)) .start latePeer latePeerEnd := by
  have hfirst : ∀ l ∈ latePeer, ∀ i e, l = .on i e → NameFirst e.events := by
    simp only [latePeer, List.forall_mem_cons, List.not_mem_nil, false_implies, implies_true,
      and_true]
    refine ⟨?_, ?_, ?_, ?_, ?_, ?_, ?_, ?_⟩ <;> rintro i e ⟨⟩
    · exact (nameFirst_field _ _).cons (by simp)
    all_goals exact nameFirst_nil
  exact (run_step_iff.mpr rfl).guarded fun l hl _ => wellParsed_of_nameFirst (hfirst l hl)

theorem misused_iff_touched_late :
    (latePeerEnd.heap.misused = false →
      latePeerEnd.heap.Holds (latePeerEnd.peers.map Peer.held).sum) ∧
    (latePeerEnd.heap.misused = true ↔ ∃ p ∈ latePeerEnd.peers, p.conn.touched = true) :=
  misused_iff_touched run_latePeer

example : latePeerEnd.heap.misused = true := by decide

/-! ### Calm runs -/

/-- The callback is a quiet one for its connection. -/
def Calm (s : Server) : ServerEvent → Prop
  | .accept _ => True
  | .on i e => ∀ p, s.peers[i]? = some p → Quiet p.conn e

instance (s : Server) : DecidablePred (Calm s)
  | .accept _ => .isTrue trivial
  | .on i e => decidable_of_iff ((s.peers[i]?).all fun p => decide (Quiet p.conn e)) (by
      rw [Calm]
      cases s.peers[i]? <;> simp)

lemma load_of_calm
    (h : Run (Guarded Calm (Step (serverStep routes pcre pieces))) .start ls s) :
    ∀ p ∈ s.peers, p.conn.Wf ∧ p.conn.load ≤ 1 := by
  refine h.invariant_guarded (I := fun s => ∀ p ∈ s.peers, p.conn.Wf ∧ p.conn.load ≤ 1) ?_ ?_
  · intro s l s' hs hcalm hl p hp
    cases l with
    | accept accepted =>
      obtain rfl := Option.some.inj hl
      rcases List.mem_append.mp hp with hp | hp
      · exact hs p hp
      · obtain rfl := List.mem_singleton.mp hp
        exact ⟨⟨fun _ => rfl, le_rfl, nofun, nofun⟩, Nat.zero_le 1⟩
    | on i e =>
      obtain ⟨q, hq, hl⟩ := Option.bind_eq_some_iff.mp hl
      obtain ⟨conn, hconn, rfl⟩ := Option.map_eq_some_iff.mp hl
      rcases List.mem_or_eq_of_mem_set hp with hp | rfl
      · exact hs p hp
      · obtain ⟨hwf, hload⟩ := hs q (List.mem_of_getElem? hq)
        exact ⟨hwf.step hconn, (load_le_one_iff hwf hconn).mpr ⟨hload, hcalm q hq⟩⟩
  · rintro p hp
    cases hp

lemma strayed_accept {accepted : Bool}
    (hl : Step (serverStep routes pcre pieces) s (.accept accepted) s') :
    s'.heap.strayed = s.heap.strayed := by
  obtain rfl := Option.some.inj hl
  exact (strays_allocReq s.heap).trans (Bool.or_false _)

/-- A callback goes outside of a block where what the parser makes of it does. -/
lemma Server.Sound.strayed_on (hs : s.Sound routes pcre ls) {i : Nat}
    (hparsed : WellParsed s (.on i e)) (hl : Step (serverStep routes pcre pieces) s (.on i e) s') :
    ∃ p, s.peers[i]? = some p ∧
      s'.heap.strayed = (s.heap.strayed || strayed routes pcre p.conn.req e.events) := by
  obtain ⟨p, hp, hl⟩ := Option.bind_eq_some_iff.mp hl
  obtain ⟨conn, hconn, rfl⟩ := Option.map_eq_some_iff.mp hl
  refine ⟨p, hp, ?_⟩
  rcases connStep_cases hconn with ⟨r, rfl, hreading, -⟩ | ⟨rfl, -⟩ | ⟨rfl, -⟩
  · have hsound := hs.peers i p hp
    have hreleased : p.conn.released = 0 :=
      Nat.le_zero.mp ((hsound.wf.reading hreading) ▸ hsound.wf.released)
    obtain ⟨rest, hsum, -⟩ := Ledger.exists_share Peer.held hp
    have hholds := hsum ▸ hs.holds
    rw [Peer.held_of_released hreleased] at hholds
    exact strayed_onReaded routes pcre pieces hsound.fits (hparsed p hp) hholds
  · exact strays_onConnEvent routes pcre pieces _ _ (fun r h => by cases h) _
  · exact strays_onConnEvent routes pcre pieces _ _ (fun r h => by cases h) _

lemma misused_of_step (hl : Step (serverStep routes pcre pieces) s l s')
    (hmisused : s.heap.misused = true) : s'.heap.misused = true := by
  cases l with
  | accept accepted =>
    obtain rfl := Option.some.inj hl
    exact steady_allocReq.misused _ hmisused
  | on i e =>
    obtain ⟨p, hp, hl⟩ := Option.bind_eq_some_iff.mp hl
    obtain ⟨conn, hconn, rfl⟩ := Option.map_eq_some_iff.mp hl
    exact (steady_onConnEvent _ _ _ _ _ _).misused _ hmisused

/-- While no callback was late, something goes outside of a block exactly when what the parser makes
of the reads of a connection does. -/
lemma strayed_of_run
    (h : Run (Guarded WellParsed (Step (serverStep routes pcre pieces))) .start ls s)
    (hmisused : s.heap.misused = false) :
    s.heap.strayed = false ↔ ∀ i,
      strayed routes pcre .fresh ((callbacks i ls).flatMap ConnEvent.events) = false := by
  induction h with
  | nil => exact iff_of_true rfl fun _ => rfl
  | @snoc s₁ s₂ ls l hrun hl ih =>
    obtain ⟨hparsed, hl⟩ := hl
    have hbefore : s₁.heap.misused = false := by
      by_contra hno
      rw [misused_of_step hl (Bool.eq_true_of_not_eq_false hno)] at hmisused
      cases hmisused
    have hsound : s₁.Sound routes pcre ls :=
      (sound_or_late hrun).resolve_right fun hlate => by simp [hlate.1] at hbefore
    cases l with
    | accept accepted =>
      rw [strayed_accept hl, ih hbefore]
      simp only [callbacks_accept]
    | on i e =>
      obtain ⟨p, hp, hstrayed⟩ := hsound.strayed_on hparsed hl
      have hself : strayed routes pcre .fresh ((callbacks i (ls ++ [.on i e])).flatMap
          ConnEvent.events) = (strayed routes pcre .fresh ((callbacks i ls).flatMap
            ConnEvent.events) || strayed routes pcre p.conn.req e.events) := by
        rw [callbacks_self, List.flatMap_append, List.flatMap_singleton, strayed_append,
          ← (hsound.peers i p hp).req]
      rw [hstrayed, Bool.or_eq_false_iff, ih hbefore]
      constructor
      · rintro ⟨hall, hnew⟩ j
        by_cases hj : i = j
        · rw [← hj, hself, hall i, hnew]
          rfl
        · rw [callbacks_ne ls hj]
          exact hall j
      · intro hall
        have hi := hall i
        rw [hself, Bool.or_eq_false_iff] at hi
        refine ⟨fun j => ?_, hi.2⟩
        by_cases hj : i = j
        · rw [← hj]
          exact hi.1
        · have hrest := hall j
          rwa [callbacks_ne ls hj] at hrest

end

/-- Two clients, which are both answered; the first one sends a header. -/
def twoPeers : List ServerEvent :=
  [.accept true, .accept true,
    .on 0 (.readed (.data [.url [47], .headerField [107], .headerValue [118], .headersComplete,
      .messageComplete] false)),
    .on 1 (.readed (.data [.url [47], .headersComplete, .messageComplete] false)),
    .on 1 .writed, .on 0 .writed, .on 1 .closed, .on 0 .closed]

/-- The server behind them. -/
def twoPeersEnd : Server := (exec sampleStep .start twoPeers).getD .start

lemma run_twoPeers :
    Run (Guarded (fun s l => WellParsed s l ∧ Calm s l) (Step sampleStep)) .start twoPeers
      twoPeersEnd := by
  have hcalm : Run (Guarded Calm (Step sampleStep)) .start twoPeers twoPeersEnd :=
    guarded_of_exec rfl
  have hfirst : ∀ l ∈ twoPeers, ∀ i e, l = .on i e → NameFirst e.events := by
    simp only [twoPeers, List.forall_mem_cons, List.not_mem_nil, false_implies, implies_true,
      and_true]
    refine ⟨?_, ?_, ?_, ?_, ?_, ?_, ?_, ?_⟩ <;> rintro i e ⟨⟩
    · exact (nameFirst_field _ _).cons (by simp)
    · exact ((nameFirst_nil.cons (by simp)).cons (by simp)).cons (by simp)
    all_goals exact nameFirst_nil
  have hparsed : ∀ l ∈ twoPeers, ∀ s, WellParsed s l :=
    fun l hl _ => wellParsed_of_nameFirst (hfirst l hl)
  exact (hcalm.guarded hparsed).mono fun s l s' hl => ⟨⟨hl.1, hl.2.1⟩, hl.2.2⟩

example : twoPeersEnd.heap.strayed = false := by decide

section

variable {routes : List Route} {pcre : Pcre} {pieces : Nat → List UInt8 → Nat}
variable {s : Server} {ls : List ServerEvent} {h : Ledger.Heap} {es : List ConnEvent} {p : Peer}

/-! ### What is left behind -/

/-- The closes that a callback leads to. -/
def ConnEvent.weight : ConnEvent → Nat
  | .readed r => r.weight
  | _ => 0

lemma load_of_run {c c' : Conn} (h : Run (Step (connStep routes pcre)) c es c') :
    c'.load = c.load + (es.map ConnEvent.weight).sum := by
  induction h with
  | nil => simp
  | @snoc c₁ c₂ es e _ hl ih =>
    rw [List.map_append, List.sum_append, ← Nat.add_assoc, ← ih]
    rcases connStep_cases hl with ⟨r, rfl, -, rfl⟩ | ⟨rfl, hout, rfl⟩ | ⟨rfl, -, hout, rfl⟩
    · exact load_readed _ _
    · simp only [Conn.load, fsModHttpResWritedCb, Conn.uvClose, Conn.touch, List.map_singleton,
        ConnEvent.weight, List.sum_singleton]
      omega
    · rfl

/-- A connection for which nothing more is called back has been released, unless nothing has ever
closed it. -/
lemma released_iff_load {c : Conn} (hwf : c.Wf) (hrests : ∀ e, connStep routes pcre c e = none) :
    c.released ≠ 0 ↔ 0 < c.load := by
  have hout : c.outstanding = 0 := by
    by_contra hpos
    simpa [connStep, Nat.pos_of_ne_zero hpos] using hrests .writed
  have hclosed : ¬ c.released < c.closes := by
    intro hlt
    simpa [connStep, hlt, hout] using hrests .closed
  have hle := hwf.released
  rw [Conn.load]
  omega

/-- The blocks of a selection are lost when another one follows it. -/
lemma leaked_eq_zero_iff {req : HttpReq} {n : Nat} {m : ReqBlocks} (h : m.Fits req n) :
    m.leaked = 0 ↔ n ≤ 1 := by
  have hlost : m.leaked = 0 ↔ m.lost = [] := by
    rw [ReqBlocks.leaked, List.sum_eq_zero_iff, List.forall_mem_map]
    refine ⟨fun hzero => List.eq_nil_iff_forall_not_mem.mpr fun self hself => ?_, ?_⟩
    · have hmem : self.1 ∈ selfBlocks self := by simp [selfBlocks]
      rw [hzero self hself] at hmem
      exact Multiset.notMem_zero _ hmem
    · rintro hnil self hself
      rw [hnil] at hself
      cases hself
  rw [hlost, ← h.made]
  constructor
  · intro hnil
    rw [hnil, List.length_nil, Nat.zero_add]
    cases m.self <;> simp
  · intro hle
    by_contra hne
    obtain ⟨self, hself⟩ := Option.isSome_iff_exists.mp (h.lost hne)
    have hpos := List.length_pos_iff.mpr hne
    rw [hself, Option.toList_some, List.length_singleton] at hle
    omega

/-- The closes of a connection come from its callbacks. -/
lemma load_of_callbacks (h : Run (Step (serverStep routes pcre pieces)) .start ls s) {i : Nat}
    (hp : s.peers[i]? = some p) : p.conn.load = ((callbacks i ls).map ConnEvent.weight).sum := by
  obtain ⟨-, hruns⟩ := Pool.started_of_run (conns_of_run h)
  obtain ⟨c₀, hc₀, hrun⟩ := hruns i p.conn (by rw [List.getElem?_map, hp]; rfl)
  obtain ⟨l, -, hl⟩ := List.mem_flatMap.mp (List.mem_of_getElem? hc₀)
  have hzero : c₀.load = 0 := by
    cases l with
    | start accepted => rw [List.mem_singleton.mp hl]; rfl
    | deliver i e => cases hl
  rw [load_of_run hrun, hzero, Nat.zero_add]
  rfl

/-- A callback that closes the connection. -/
lemma exists_weight_iff :
    0 < (es.map ConnEvent.weight).sum ↔ ∃ r, .readed r ∈ es ∧ 0 < r.weight := by
  rw [Nat.pos_iff_ne_zero, Ne, List.sum_eq_zero_iff, List.forall_mem_map]
  simp only [not_forall, exists_prop]
  constructor
  · rintro ⟨e, he, hne⟩
    cases e with
    | readed r => exact ⟨r, he, Nat.pos_of_ne_zero hne⟩
    | writed | closed => exact absurd rfl hne
  · rintro ⟨r, hr, hpos⟩
    exact ⟨.readed r, hr, hpos.ne'⟩

lemma Peer.held_eq_zero_iff (hp : p.Sound routes pcre h es)
    (hrests : ∀ e, connStep routes pcre p.conn e = none) :
    p.held = 0 ↔ 0 < p.conn.load ∧
      selections routes pcre .fresh (es.flatMap ConnEvent.events) ≤ 1 := by
  rw [← released_iff_load hp.wf hrests, ← leaked_eq_zero_iff hp.fits]
  by_cases hreleased : p.conn.released = 0
  · rw [Peer.held_of_released hreleased]
    refine iff_of_false (fun hzero => ?_) fun hno => hno.1 hreleased
    have hmem := req_mem_all p.blocks
    rw [hzero] at hmem
    exact Multiset.notMem_zero _ hmem
  · rw [Peer.held, if_neg hreleased]
    exact (and_iff_right hreleased).symm

/-- When nothing more is called back, all memory has been given back exactly when each connection
has answered, come to the end of its file or failed to parse, and has selected a route once at
most. -/
theorem returned_iff
    (h : Run (Guarded WellParsed (Step (serverStep routes pcre pieces))) .start ls s)
    (hmisused : s.heap.misused = false)
    (hrests : ∀ i e, serverStep routes pcre pieces s (.on i e) = none) :
    s.heap.live = 0 ↔ ∀ i < s.peers.length,
      (∃ r, .readed r ∈ callbacks i ls ∧ 0 < r.weight) ∧
      selections routes pcre .fresh ((callbacks i ls).flatMap ConnEvent.events) ≤ 1 := by
  have hsound : s.Sound routes pcre ls := by
    refine (sound_or_late h).resolve_right fun hlate => ?_
    rw [hlate.1] at hmisused
    cases hmisused
  rw [hsound.holds.live, List.sum_eq_zero_iff, List.forall_mem_map]
  have hpeer : ∀ (i : Nat) (p : Peer), s.peers[i]? = some p → (p.held = 0 ↔
      (∃ r, .readed r ∈ callbacks i ls ∧ 0 < r.weight) ∧
      selections routes pcre .fresh ((callbacks i ls).flatMap ConnEvent.events) ≤ 1) := by
    intro i p hp
    have hrest : ∀ e, connStep routes pcre p.conn e = none := fun e => by
      simpa [serverStep, hp] using hrests i e
    rw [Peer.held_eq_zero_iff (hsound.peers i p hp) hrest, load_of_callbacks h.unguarded hp,
      exists_weight_iff]
  constructor
  · intro hzero i hi
    have hp := List.getElem?_eq_getElem hi
    exact (hpeer i _ hp).mp (hzero _ (List.getElem_mem hi))
  · intro hall p hp
    obtain ⟨i, hi⟩ := List.mem_iff_getElem?.mp hp
    exact (hpeer i p hi).mpr (hall i (List.getElem?_eq_some_iff.mp hi).1)

end

theorem returned_iff_two :
    twoPeersEnd.heap.live = 0 ↔ ∀ i < twoPeersEnd.peers.length,
      (∃ r, .readed r ∈ callbacks i twoPeers ∧ 0 < r.weight) ∧
      selections [.proxy .toB] .matching .fresh
        ((callbacks i twoPeers).flatMap ConnEvent.events) ≤ 1 := by
  refine returned_iff (run_twoPeers.mono fun _ _ _ hl => ⟨hl.1.1, hl.2⟩) (by decide) fun i e => ?_
  rcases i with _ | _ | i
  · cases e <;> rfl
  · cases e <;> rfl
  · rfl

example : twoPeersEnd.heap.live = 0 := by decide

end Folksong
