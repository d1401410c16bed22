import Folksong.Script.Objects

/-!
# Reading a block

What a directive of a block gives is read off the block: no directive of another block, and none of
a block that stands inside, has a part in it. A time or a field of a publisher is given once at
most, the words of a host, a port or a command are those that are given last.
-/

namespace Folksong

open Transition

/-! ### What a block gives -/

namespace Script

/-- The words of the directives of one command that stand in the block itself. -/
def given (k : Callback) : Script → List (List FsStr)
  | nil => []
  | param k' l rest => if k' = k then l.args :: rest.given k else rest.given k
  | block _ _ _ _ rest => rest.given k

lemma given_param_self (k : Callback) (l : Line) (rest : Script) :
    (param k l rest).given k = l.args :: rest.given k :=
  if_pos rfl

/-- The word that is given last. -/
def lastWord (k : Callback) (s : Script) : Option FsStr := (s.given k).flatten.getLast?

lemma lastWord_param_self {k : Callback} {l : Line} {w : FsStr} (hargs : l.args = [w])
    (rest : Script) : (param k l rest).lastWord k = (rest.lastWord k).or (some w) := by
  rw [lastWord, given_param_self, hargs, List.flatten_cons, List.getLast?_append]
  rfl

/-- The blocks inside that are no blocks of their own, with their words. -/
def inner : Script → List (Callback × List FsStr × Script)
  | nil => []
  | param _ _ rest => rest.inner
  | block k l body _ rest => if k.child then (k, l.args, body) :: rest.inner else rest.inner

end Script

/-- A value that is given once at most. -/
inductive Once {α : Type} (give : α → FsStr → α → Prop) : List (List FsStr) → α → α → Prop where
  | never {x} : Once give [] x x
  | once {w x y} : give x w y → Once give [[w]] x y

/-- A time with its flag. -/
def GiveTime (x : Bool × Nat) (w : FsStr) (y : Bool × Nat) : Prop :=
  x.1 = false ∧ fsModTimerParseTime w.cstr = some y.2 ∧ y.1 = true

/-- A field of a publisher. -/
def GiveField (x : StrField) (w : FsStr) (y : StrField) : Prop := x.isSet = false ∧ y = .set w

lemma Once.cons {α : Type} {give : α → FsStr → α → Prop} {ws : List (List FsStr)} {w : FsStr}
    {x y z : α} (h : give x w y) (hno : ∀ w z, ¬ give y w z) (hrest : Once give ws y z) :
    Once give ([w] :: ws) x z := by
  cases hrest with
  | never => exact .once h
  | once hagain => exact absurd hagain (hno _ _)

lemma GiveTime.cons {ws : List (List FsStr)} {w : FsStr} {x y z : Bool × Nat}
    (h : GiveTime x w y) (hrest : Once GiveTime ws y z) : Once GiveTime ([w] :: ws) x z :=
  Once.cons h (fun _ _ hagain => Bool.false_ne_true (hagain.1.symm.trans h.2.2)) hrest

lemma GiveField.cons {ws : List (List FsStr)} {w : FsStr} {x y z : StrField}
    (h : GiveField x w y) (hrest : Once GiveField ws y z) : Once GiveField ([w] :: ws) x z := by
  refine Once.cons h (fun _ _ hagain => ?_) hrest
  rw [GiveField, h.2] at hagain
  cases hagain.1

/-! ### Timers -/

/-- The timer, which was `t₀` before the directives of the body. -/
structure Timer.Reads (t₀ : Timer) (s : Script) (t : Timer) : Prop where
  timeout : Once GiveTime (s.given .timerTimeout) (t₀.timeoutFlag, t₀.timeout)
    (t.timeoutFlag, t.timeout)
  rep : Once GiveTime (s.given .timerRepeat) (t₀.repeatFlag, t₀.rep) (t.repeatFlag, t.rep)
  procOptions : t.procOptions = ((s.given .timerExec).getLast?.map execWords).or t₀.procOptions
  cbFlag : t.cbFlag = (t₀.cbFlag || !(s.given .timerExec).isEmpty)

section

variable {mods : List (FsMod ModId Callback)} {lib : Lib} {unset : Heap → Callback → Bool}
  {null : Callback → Bool} {calls calls' : List LibCall} {k : Callback} {args : List FsStr}
  {o o' : Obj}

lemma exec_eq_ok_iff {options : ProcOptions} : lib.exec args = .ok options ↔
    (execWords args).args.Fits lib ∧ options = execWords args := by
  rw [Lib.exec]
  split_ifs with hfits <;> simp [hfits, eq_comm]

/-- What a directive makes of a timer. -/
lemma meaning_timer {t : Timer} (h : k.meaning lib null calls args (.timer t) = .ok (o', calls')) :
    (k = .timerTimeout ∧ ∃ w n, args = [w] ∧ t.timeoutFlag = false ∧
        fsModTimerParseTime w.cstr = some n ∧
        o' = .timer { t with timeout := n, timeoutFlag := true }) ∨
      (k = .timerRepeat ∧ ∃ w n, args = [w] ∧ t.repeatFlag = false ∧
        fsModTimerParseTime w.cstr = some n ∧
        o' = .timer { t with rep := n, repeatFlag := true }) ∨
      (k = .timerExec ∧
        o' = .timer { t with procOptions := some (execWords args), cbFlag := true }) := by
  unfold Callback.meaning at h
  split at h
  case h_2 | h_3 =>
    rename_i heq
    cases heq
    split_ifs at h with hflag
    split at h
    next => cases h
    next n hn =>
      cases h
      simp [hn, hflag]
  all_goals rename_i heq
  case h_4 =>
    cases heq
    obtain ⟨options, hexec, hr⟩ := Except.map_eq_ok_iff.mp h
    cases hr
    rw [(exec_eq_ok_iff.mp hexec).2]
    simp
  all_goals first
    | cases heq
    | cases h

/-- The directives of a timer block that works on a timer. -/
lemma Timer.reads_of_run (s : Script) :
    ∀ {t₀ : Timer} {o : Obj}, s.Placed (some .timerBlock) →
      Run (Sets lib unset) (.timer t₀) s.settings o → ∃ t, o = .timer t ∧ t₀.Reads s t := by
  induction s with
  | nil =>
    intro t₀ o _ hrun
    obtain rfl := run_nil_iff.mp hrun
    exact ⟨t₀, rfl, .never, .never, rfl, (Bool.or_false _).symm⟩
  | param k l rest ih =>
    intro t₀ o hplaced hrun
    obtain ⟨o₁, ⟨h, calls, hmeaning⟩, hrun⟩ := run_cons_iff.mp hrun
    rcases meaning_timer hmeaning with ⟨rfl, w, n, hargs, hflag, hn, rfl⟩ |
      ⟨rfl, w, n, hargs, hflag, hn, rfl⟩ | ⟨rfl, rfl⟩
    · obtain ⟨t, rfl, hreads⟩ := ih hplaced.2 hrun
      have hgive : GiveTime (t₀.timeoutFlag, t₀.timeout) w (true, n) := ⟨hflag, hn, rfl⟩
      have htimeout := hgive.cons hreads.timeout
      rw [← hargs] at htimeout
      exact ⟨t, rfl, htimeout, hreads.rep, hreads.procOptions, hreads.cbFlag⟩
    · obtain ⟨t, rfl, hreads⟩ := ih hplaced.2 hrun
      have hgive : GiveTime (t₀.repeatFlag, t₀.rep) w (true, n) := ⟨hflag, hn, rfl⟩
      have hrep := hgive.cons hreads.rep
      rw [← hargs] at hrep
      exact ⟨t, rfl, hreads.timeout, hrep, hreads.procOptions, hreads.cbFlag⟩
    · obtain ⟨t, rfl, hreads⟩ := ih hplaced.2 hrun
      refine ⟨t, rfl, hreads.timeout, hreads.rep, ?_, ?_⟩
      · rw [hreads.procOptions, Script.given_param_self, List.getLast?_cons, Option.map_some]
        cases (rest.given .timerExec).getLast? <;> rfl
      · rw [hreads.cbFlag, Script.given_param_self]
        cases t₀.cbFlag <;> rfl
  | block k l body left rest ihbody ihrest =>
    intro t₀ o hplaced hrun
    cases k with
    | versionInit | timerBlock | httpBlock =>
      obtain ⟨t, ho, hreads⟩ := ihrest hplaced.2.2 hrun
      exact ⟨t, ho, hreads.timeout, hreads.rep, hreads.procOptions, hreads.cbFlag⟩
    | _ => cases hplaced.1.2

/-! ### Routes -/

/-- The publisher, which was `q₀` before the directives of the body. -/
structure Publisher.Reads (q₀ : Publisher) (s : Script) (q : Publisher) : Prop where
  path : q.path = q₀.path
  pathRe : q.pathRe = q₀.pathRe
  field : ∀ name : PublisherParam,
    Once GiveField (s.given name.cmd.call) (name.field q₀) (name.field q)
  conf : ∃ items : List (FsStr × FsStr),
    s.given .httpKafkaConfig = items.map (fun item => [item.1, item.2]) ∧
      q.conf.contents = q₀.conf.contents ++ items.map some

/-- The proxy, which was `x₀` before the directives of the body. -/
structure Proxy.Reads (lib : Lib) (x₀ : Proxy) (s : Script) (x : Proxy) : Prop where
  path : x.path = x₀.path
  pathRe : x.pathRe = x₀.pathRe
  pathCaptures : x.pathCaptures = x₀.pathCaptures
  passPath : ∃ templates : List FsStr, s.given .httpProxyPassPath = templates.map ([·]) ∧
    (∀ template ∈ templates, (varPieces lib template).1 = true) ∧
    x.passPath.contents = x₀.passPath.contents ++
      (templates.flatMap fun template => (varPieces lib template).2).map some

/-- The routes of the block. -/
def Http.Routes (http : Http) (rs : List Route) : Prop := http.routes.contents = rs.map some

lemma Http.Routes.lastRoute {http : Http} {rs : List Route} {r : Route}
    (h : http.Routes (rs ++ [r])) : http.lastRoute = some r := by
  have hcount := FsArr.eleCount_of_contents h
  rw [List.length_append, List.length_singleton] at hcount
  rw [Http.lastRoute, if_neg (by omega), hcount, Nat.add_sub_cancel]
  refine FsArr.nth_of_contents ?_
  rw [h]
  simp

lemma Http.Routes.setLast {http : Http} {rs : List Route} {r : Route}
    (h : http.Routes (rs ++ [r])) (r' : Route) : (http.setLast r').Routes (rs ++ [r']) := by
  have hcount := FsArr.eleCount_of_contents h
  rw [List.length_append, List.length_singleton] at hcount
  rw [Http.Routes, Http.setLast, FsArr.write_contents, hcount, Nat.add_sub_cancel, h]
  simp

lemma Http.Routes.push {http : Http} {rs : List Route} (h : http.Routes rs) (r : Route) :
    (http.addRoute r).Routes (rs ++ [r]) := by
  rw [Http.Routes, Http.addRoute, FsArr.push_contents, h, List.map_append]
  rfl

/-- Only the routes are changed, to `rs`. -/
structure Http.Reroutes (http http' : Http) (rs : List Route) : Prop where
  host : http'.host = http.host
  port : http'.port = http.port
  routes : http'.Routes rs

lemma Http.Reroutes.trans {http http₁ http' : Http} {rs rs' : List Route}
    (h : http.Reroutes http₁ rs) (h' : http₁.Reroutes http' rs') : http.Reroutes http' rs' :=
  ⟨h'.host.trans h.host, h'.port.trans h.port, h'.routes⟩

lemma Http.Routes.reroutes {http : Http} {rs : List Route} {r : Route}
    (h : http.Routes (rs ++ [r])) (r' : Route) :
    http.Reroutes (http.setLast r') (rs ++ [r']) :=
  ⟨rfl, rfl, h.setLast r'⟩

lemma args_one {l : Line} {r : Obj × List LibCall}
    (hk : k ∈ [.timerTimeout, .timerRepeat, .httpHost, .httpPort, .httpKafkaBlock,
      .httpKafkaTopicParam, .httpKafkaDefaultTopic, .httpKafkaKeyParam, .httpKafkaDefaultKey,
      .httpProxyBlock, .httpProxyPassPath, .kafkaListenerTopic])
    (h : k.meaning lib null calls l.args o = .ok r) : ∃ w, l.args = [w] := by
  by_contra hno
  rw [meaning_of_args_one hk (not_exists.mp hno)] at h
  cases h

lemma onPublisher_of_lastRoute {http : Http} {q : Publisher}
    (hlast : http.lastRoute = some (.publisher q)) (f : Publisher → Except Fault Publisher) :
    http.onPublisher f = (f q).map fun q => http.setLast (.publisher q) := by
  rw [Http.onPublisher, hlast]

lemma meaning_publisherField (name : PublisherParam) {l : Line} {http : Http} {q : Publisher}
    (hlast : http.lastRoute = some (.publisher q))
    (h : name.cmd.call.meaning lib null calls l.args (.http http) = .ok (o', calls')) :
    ∃ w, l.args = [w] ∧ (name.field q).isSet = false ∧
      o' = .http (http.setLast (.publisher (name.store q (.set w)))) := by
  obtain ⟨w, hargs⟩ := args_one (by cases name <;> simp [PublisherParam.cmd, fsParamCmd]) h
  have hm : name.cmd.call.meaning lib null calls [w] (.http http)
      = (http.onPublisher (Publisher.give name w)).map fun http => (.http http, calls) := by
    cases name <;> rfl
  rw [hargs, hm, onPublisher_of_lastRoute hlast, Publisher.give] at h
  split_ifs at h with hset
  · cases h
  · cases h
    exact ⟨w, hargs, Bool.eq_false_iff.mpr hset, rfl⟩

lemma meaning_publisherConfig {l : Line} {http : Http} {q : Publisher}
    (hlast : http.lastRoute = some (.publisher q))
    (h : Callback.httpKafkaConfig.meaning lib null calls l.args (.http http) = .ok (o', calls')) :
    ∃ key value, l.args = [key, value] ∧
      o' = .http (http.setLast (.publisher { q with conf := q.conf.push (key, value) })) := by
  rcases hargs : l.args with _ | ⟨key, _ | ⟨value, _ | ⟨w, ws⟩⟩⟩ <;> rw [hargs] at h
  case cons.cons.nil =>
    rw [Callback.meaning, onPublisher_of_lastRoute hlast] at h
    cases h
    exact ⟨key, value, rfl, rfl⟩
  all_goals cases h

/-- The parameters of a publisher. -/
lemma publisherParam_cases (hparam : k.isParam = true) (hplace : k.place = .httpKafkaBlock) :
    k = .httpKafkaConfig ∨ ∃ name : PublisherParam, k = name.cmd.call := by
  cases k with
  | httpKafkaConfig => exact .inl rfl
  | httpKafkaTopicParam => exact .inr ⟨.topicParam, rfl⟩
  | httpKafkaDefaultTopic => exact .inr ⟨.defaultTopic, rfl⟩
  | httpKafkaKeyParam => exact .inr ⟨.keyParam, rfl⟩
  | httpKafkaDefaultKey => exact .inr ⟨.defaultKey, rfl⟩
  | httpKafkaBlock => cases hparam
  | _ => cases hplace

lemma PublisherParam.call_inj {name name' : PublisherParam} :
    name.cmd.call = name'.cmd.call ↔ name = name' := by
  cases name <;> cases name' <;> decide

lemma PublisherParam.call_ne_config (name : PublisherParam) : name.cmd.call ≠ .httpKafkaConfig := by
  cases name <;> decide

lemma conf_store (name : PublisherParam) (q : Publisher) (v : StrField) :
    (name.store q v).conf = q.conf := by
  cases name <;> rfl

/-- The directives of a publisher work on the route that was added last. -/
lemma Publisher.reads_of_run (s : Script) :
    ∀ {http : Http} {q₀ : Publisher} {rs : List Route} {o : Obj},
      s.Placed (some .httpKafkaBlock) → http.Routes (rs ++ [.publisher q₀]) →
      Run (Sets lib unset) (.http http) s.settings o →
      ∃ http' q, o = .http http' ∧ http.Reroutes http' (rs ++ [.publisher q]) ∧
        q₀.Reads s q := by
  induction s with
  | nil =>
    intro http q₀ rs o _ hroutes hrun
    obtain rfl := run_nil_iff.mp hrun
    exact ⟨http, q₀, rfl, ⟨rfl, rfl, hroutes⟩, rfl, rfl, fun _ => .never, [], rfl, by simp⟩
  | param k l rest ih =>
    intro http q₀ rs o hplaced hroutes hrun
    obtain ⟨o₁, ⟨h, calls, hmeaning⟩, hrun⟩ := run_cons_iff.mp hrun
    obtain ⟨-, hparam, hplace⟩ := hplaced.1
    rcases publisherParam_cases hparam (Option.some.inj hplace).symm with rfl | ⟨name, rfl⟩
    · obtain ⟨key, value, hargs, rfl⟩ := meaning_publisherConfig hroutes.lastRoute hmeaning
      obtain ⟨http', q, rfl, hre, hreads⟩ := ih hplaced.2 (hroutes.setLast _) hrun
      refine ⟨http', q, rfl, (hroutes.reroutes _).trans hre, hreads.path, hreads.pathRe, ?_, ?_⟩
      · intro name
        have hfield := hreads.field name
        rw [Script.given, if_neg name.call_ne_config.symm]
        cases name <;> exact hfield
      · obtain ⟨items, hgiven, hconf⟩ := hreads.conf
        refine ⟨(key, value) :: items, ?_, ?_⟩
        · rw [Script.given_param_self, hgiven, hargs]
          rfl
        · rw [hconf, FsArr.push_contents, List.append_assoc]
          rfl
    · obtain ⟨w, hargs, hfree, rfl⟩ := meaning_publisherField name hroutes.lastRoute hmeaning
      obtain ⟨http', q, rfl, hre, hreads⟩ := ih hplaced.2 (hroutes.setLast _) hrun
      refine ⟨http', q, rfl, (hroutes.reroutes _).trans hre, ?_, ?_, ?_, ?_⟩
      · rw [hreads.path]
        cases name <;> rfl
      · rw [hreads.pathRe]
        cases name <;> rfl
      · intro name'
        have hfield := hreads.field name'
        by_cases hname : name = name'
        · subst hname
          rw [field_store_self] at hfield
          rw [Script.given_param_self, hargs]
          exact GiveField.cons ⟨hfree, rfl⟩ hfield
        · rw [field_store_ne (Ne.symm hname)] at hfield
          rw [Script.given, if_neg (PublisherParam.call_inj.not.mpr hname)]
          exact hfield
      · obtain ⟨items, hgiven, hconf⟩ := hreads.conf
        rw [conf_store] at hconf
        refine ⟨items, ?_, hconf⟩
        rw [Script.given, if_neg name.call_ne_config, hgiven]
  | block k l body left rest ihbody ihrest =>
    intro http q₀ rs o hplaced hroutes hrun
    cases k with
    | versionInit | timerBlock | httpBlock =>
      obtain ⟨http', q, ho, hre, hreads⟩ := ihrest hplaced.2.2 hroutes hrun
      exact ⟨http', q, ho, hre, hreads.path, hreads.pathRe, hreads.field, hreads.conf⟩
    | _ => cases hplaced.1.2

lemma meaning_passPath {l : Line} {http : Http} {x : Proxy}
    (hlast : http.lastRoute = some (.proxy x))
    (h : Callback.httpProxyPassPath.meaning lib null calls l.args (.http http)
      = .ok (o', calls')) :
    ∃ template, l.args = [template] ∧ (varPieces lib template).1 = true ∧
      o' = .http (http.setLast (.proxy
        { x with passPath := (varPieces lib template).2.foldl FsArr.push x.passPath })) := by
  obtain ⟨template, hargs⟩ := args_one (by simp) h
  rw [hargs, Callback.meaning, Http.passPath, hlast] at h
  dsimp only at h
  split_ifs at h with hbad
  · cases h
  · cases h
    exact ⟨template, hargs, by simpa using (not_or.mp hbad).2, rfl⟩

lemma foldl_push_pieces (pieces : List Piece) (arr : FsArr Piece) :
    (pieces.foldl FsArr.push arr).contents = arr.contents ++ pieces.map some := by
  induction pieces generalizing arr with
  | nil => simp
  | cons piece pieces ih => simp [ih, FsArr.push_contents]

/-- The directives of a proxy do so, too. -/
lemma Proxy.reads_of_run (s : Script) :
    ∀ {http : Http} {x₀ : Proxy} {rs : List Route} {o : Obj},
      s.Placed (some .httpProxyBlock) → http.Routes (rs ++ [.proxy x₀]) →
      Run (Sets lib unset) (.http http) s.settings o →
      ∃ http' x, o = .http http' ∧ http.Reroutes http' (rs ++ [.proxy x]) ∧ x₀.Reads lib s x := by
  induction s with
  | nil =>
    intro http x₀ rs o _ hroutes hrun
    obtain rfl := run_nil_iff.mp hrun
    exact ⟨http, x₀, rfl, ⟨rfl, rfl, hroutes⟩, rfl, rfl, rfl, [], rfl, by simp, by simp⟩
  | param k l rest ih =>
    intro http x₀ rs o hplaced hroutes hrun
    obtain ⟨o₁, ⟨h, calls, hmeaning⟩, hrun⟩ := run_cons_iff.mp hrun
    obtain ⟨-, hparam, hplace⟩ := hplaced.1
    obtain rfl : k = .httpProxyPassPath := by
      cases k with
      | httpProxyPassPath => rfl
      | httpProxyBlock => cases hparam
      | _ => cases hplace
    obtain ⟨template, hargs, hok, rfl⟩ := meaning_passPath hroutes.lastRoute hmeaning
    obtain ⟨http', x, rfl, hre, hreads⟩ := ih hplaced.2 (hroutes.setLast _) hrun
    refine ⟨http', x, rfl, (hroutes.reroutes _).trans hre, hreads.path, hreads.pathRe,
      hreads.pathCaptures, ?_⟩
    obtain ⟨templates, hgiven, hall, hpass⟩ := hreads.passPath
    refine ⟨template :: templates, ?_, ?_, ?_⟩
    · rw [Script.given_param_self, hgiven, hargs]
      rfl
    · rintro t ht
      rcases List.mem_cons.mp ht with rfl | ht
      · exact hok
      · exact hall t ht
    · rw [hpass, foldl_push_pieces, List.flatMap_cons, List.map_append, List.append_assoc]
  | block k l body left rest ihbody ihrest =>
    intro http x₀ rs o hplaced hroutes hrun
    cases k with
    | versionInit | timerBlock | httpBlock =>
      obtain ⟨http', x, ho, hre, hreads⟩ := ihrest hplaced.2.2 hroutes hrun
      exact ⟨http', x, ho, hre, hreads.path, hreads.pathRe, hreads.pathCaptures, hreads.passPath⟩
    | _ => cases hplaced.1.2

/-- The route that a block inside an http block makes. -/
inductive Route.Reads (lib : Lib) (unset : Heap → Callback → Bool) :
    Callback × List FsStr × Script → Route → Prop where
  | publisher {path body q} (h : Heap) :
      (Publisher.started path
        (if lib.result h.calls (.pcreCompile path.cstr) then some path.cstr else none)
        (unset h)).Reads body q →
      Route.Reads lib unset (.httpKafkaBlock, [path], body) (.publisher q)
  | proxy {path body x} :
      Proxy.Reads lib ⟨path, some path.cstr, lib.captures path.cstr,
        fsAllocArr Piece 2 Nat.two_pos⟩ body x →
      Route.Reads lib unset (.httpProxyBlock, [path], body) (.proxy x)

/-- The block, which was `http₀` before the directives of the body. -/
structure Http.Reads (lib : Lib) (unset : Heap → Callback → Bool) (http₀ : Http) (s : Script)
    (http : Http) : Prop where
  host : http.host = (s.lastWord .httpHost).or http₀.host
  port : http.port
    = (s.lastWord .httpPort).elim http₀.port fun w => (atoi w.cstr % 2 ^ 16).toNat
  routes : ∃ rs, List.Forall₂ (Route.Reads lib unset) s.inner rs ∧
    http.routes.contents = http₀.routes.contents ++ rs.map some

/-- A block inside an http block adds its route. -/
lemma Route.reads_of_run {http : Http} {rs : List Route} {l : Line} {body : Script}
    (hopens : k.opensIn (some .httpBlock) = true) (hchild : k.child = true)
    (hplaced : body.Placed (some k)) (hroutes : http.Routes rs)
    (hrun : Run (Sets lib unset) (.http http) ((k, l.args) :: body.settings) o) :
    ∃ http' r, o = .http http' ∧ http.Reroutes http' (rs ++ [r]) ∧
      Route.Reads lib unset (k, l.args, body) r := by
  obtain ⟨o₁, ⟨h, calls, hmeaning⟩, hrun⟩ := run_cons_iff.mp hrun
  cases k with
  | httpKafkaBlock =>
    obtain ⟨path, hargs⟩ := args_one (by simp) hmeaning
    rw [hargs, Callback.meaning] at hmeaning
    cases hmeaning
    obtain ⟨http', q, rfl, hre, hreads⟩ := Publisher.reads_of_run body hplaced
      (hroutes.push _) hrun
    rw [hargs]
    exact ⟨http', _, rfl, ⟨hre.host, hre.port, hre.routes⟩, .publisher h hreads⟩
  | httpProxyBlock =>
    obtain ⟨path, hargs⟩ := args_one (by simp) hmeaning
    rw [hargs, Callback.meaning] at hmeaning
    obtain ⟨calls', -, heq⟩ := Except.map_eq_ok_iff.mp hmeaning
    cases heq
    obtain ⟨http', x, rfl, hre, hreads⟩ := Proxy.reads_of_run body hplaced
      (hroutes.push _) hrun
    rw [hargs]
    exact ⟨http', _, rfl, ⟨hre.host, hre.port, hre.routes⟩, .proxy hreads⟩
  | versionInit | timerBlock | httpBlock | kafkaListenerBlock => cases hchild
  | _ => cases hopens

/-- The directives of an http block. -/
lemma Http.reads_of_run (s : Script) :
    ∀ {http₀ : Http} {rs : List Route} {o : Obj}, s.Placed (some .httpBlock) →
      http₀.Routes rs → Run (Sets lib unset) (.http http₀) s.settings o →
      ∃ http, o = .http http ∧ http₀.Reads lib unset s http := by
  induction s with
  | nil =>
    intro http₀ rs o _ _ hrun
    obtain rfl := run_nil_iff.mp hrun
    exact ⟨http₀, rfl, rfl, rfl, [], .nil, by simp⟩
  | param k l rest ih =>
    intro http₀ rs o hplaced hroutes hrun
    obtain ⟨o₁, ⟨h, calls, hmeaning⟩, hrun⟩ := run_cons_iff.mp hrun
    obtain ⟨-, hparam, hplace⟩ := hplaced.1
    cases k with
    | httpHost =>
      obtain ⟨w, hargs⟩ := args_one (by simp) hmeaning
      rw [hargs] at hmeaning
      cases hmeaning
      have hroutes' : ({ http₀ with host := some w } : Http).Routes rs := hroutes
      obtain ⟨http, rfl, hreads⟩ := ih hplaced.2 hroutes' hrun
      refine ⟨http, rfl, ?_, hreads.port, hreads.routes⟩
      rw [hreads.host, Script.lastWord_param_self hargs]
      cases rest.lastWord .httpHost <;> rfl
    | httpPort =>
      obtain ⟨w, hargs⟩ := args_one (by simp) hmeaning
      rw [hargs] at hmeaning
      cases hmeaning
      have hroutes' : ({ http₀ with port := (atoi w.cstr % 2 ^ 16).toNat } : Http).Routes rs :=
        hroutes
      obtain ⟨http, rfl, hreads⟩ := ih hplaced.2 hroutes' hrun
      refine ⟨http, rfl, hreads.host, ?_, hreads.routes⟩
      rw [hreads.port, Script.lastWord_param_self hargs]
      cases rest.lastWord .httpPort <;> rfl
    | httpBlock => cases hparam
    | _ => cases hplace
  | block k l body left rest ihbody ihrest =>
    intro http₀ rs o hplaced hroutes hrun
    rw [Script.settings] at hrun
    split_ifs at hrun with hchild
    · obtain ⟨o₁, hblock, hrun⟩ := run_append_iff.mp hrun
      obtain ⟨http₁, r, rfl, hre, hroute⟩ := Route.reads_of_run hplaced.1.2 hchild hplaced.2.1
        hroutes hblock
      obtain ⟨http, rfl, hreads⟩ := ihrest hplaced.2.2 hre.routes hrun
      obtain ⟨rs', hinner, hcontents⟩ := hreads.routes
      refine ⟨http, rfl, hreads.host.trans (by rw [hre.host]; rfl),
        hreads.port.trans (by rw [hre.port]; rfl), r :: rs', ?_, ?_⟩
      · rw [Script.inner, if_pos hchild]
        exact .cons hroute hinner
      · rw [hcontents, hre.routes, hroutes, List.map_append, List.append_assoc]
        rfl
    · obtain ⟨http, ho, hreads⟩ := ihrest hplaced.2.2 hroutes hrun
      refine ⟨http, ho, hreads.host, hreads.port, ?_⟩
      rw [Script.inner, if_neg hchild]
      exact hreads.routes

/-! ### Listeners -/

/-- The topics of the listener. -/
def Listener.Topics (l : Listener) (ts : List Topic) : Prop :=
  match l.topic with
  | .null => ts = []
  | .wild => False
  | .arr topics => topics.contents = ts.map some

/-- The topic of a block inside a listener. -/
structure Topic.Reads (b : Callback × List FsStr × Script) (t : Topic) : Prop where
  name : b.2.1 = [t.topic]
  procOptions : t.procOptions = (b.2.2.given .kafkaListenerExec).getLast?.map execWords
  procFlag : t.procFlag = !(b.2.2.given .kafkaListenerExec).isEmpty

/-- The listener, which had these items and these topics before the directives of the body. -/
structure Listener.Reads (conf : List (List UInt8 × List UInt8)) (ts : List Topic) (s : Script)
    (l : Listener) : Prop where
  conf : ∃ items : List (FsStr × FsStr),
    s.given .kafkaListenerConfig = items.map (fun item => [item.1, item.2]) ∧
      l.conf = conf ++ items.map fun item => (item.1.cstr, item.2.cstr)
  topics : ∃ ts', List.Forall₂ Topic.Reads s.inner ts' ∧ l.Topics (ts ++ ts')

lemma Listener.Topics.addTopic {l l' : Listener} {ts : List Topic} {name : FsStr}
    (htopics : l.Topics ts) (h : l.addTopic name = .ok l') :
    l'.conf = l.conf ∧ l'.Topics (ts ++ [⟨name, none, false⟩]) := by
  rw [Listener.Topics] at htopics
  rw [Listener.addTopic] at h
  split at h
  next => cases h
  next hnull =>
    rw [hnull] at htopics
    cases h
    subst htopics
    exact ⟨rfl, FsArr.push_contents _ _⟩
  next topics harr =>
    rw [harr] at htopics
    cases h
    refine ⟨rfl, (FsArr.push_contents _ _).trans ?_⟩
    rw [List.map_append, ← htopics]
    rfl

lemma Listener.Topics.exec {l l' : Listener} {ts : List Topic} {t : Topic} {args : List FsStr}
    (htopics : l.Topics (ts ++ [t])) (h : l.exec lib args = .ok l') :
    l'.conf = l.conf ∧
      l'.Topics (ts ++ [{ t with procOptions := some (execWords args), procFlag := true }]) := by
  rw [Listener.Topics] at htopics
  rw [Listener.exec] at h
  split at h
  next topics harr =>
    rw [harr] at htopics
    have hcount := FsArr.eleCount_of_contents htopics
    rw [List.length_append, List.length_singleton] at hcount
    have hnth : topics.nth (topics.eleCount - 1) = some t := by
      refine FsArr.nth_of_contents ?_
      rw [htopics, hcount]
      simp
    rw [if_neg (by omega), hnth] at h
    obtain ⟨options, hexec, rfl⟩ := Except.map_eq_ok_iff.mp h
    rw [(exec_eq_ok_iff.mp hexec).2]
    refine ⟨rfl, (FsArr.write_contents _ _ _).trans ?_⟩
    rw [htopics, hcount]
    simp
  next => cases h

/-- The directives of a topic work on the topic that was added last. -/
lemma Topic.reads_of_run (s : Script) :
    ∀ {l : Listener} {t₀ : Topic} {ts : List Topic} {o : Obj},
      s.Placed (some .kafkaListenerTopic) → l.Topics (ts ++ [t₀]) →
      Run (Sets lib unset) (.listener l) s.settings o →
      ∃ l' t, o = .listener l' ∧ l'.conf = l.conf ∧ l'.Topics (ts ++ [t]) ∧ t.topic = t₀.topic ∧
        t.procOptions = ((s.given .kafkaListenerExec).getLast?.map execWords).or t₀.procOptions ∧
        t.procFlag = (t₀.procFlag || !(s.given .kafkaListenerExec).isEmpty) := by
  induction s with
  | nil =>
    intro l t₀ ts o _ htopics hrun
    obtain rfl := run_nil_iff.mp hrun
    exact ⟨l, t₀, rfl, rfl, htopics, rfl, rfl, (Bool.or_false _).symm⟩
  | param k line rest ih =>
    intro l t₀ ts o hplaced htopics hrun
    obtain ⟨o₁, ⟨h, calls, hmeaning⟩, hrun⟩ := run_cons_iff.mp hrun
    obtain ⟨-, hparam, hplace⟩ := hplaced.1
    obtain rfl : k = .kafkaListenerExec := by
      cases k with
      | kafkaListenerExec => rfl
      | kafkaListenerTopic => cases hparam
      | _ => cases hplace
    obtain ⟨l₁, hexec, heq⟩ := Except.map_eq_ok_iff.mp hmeaning
    cases heq
    obtain ⟨hconf, htopics⟩ := htopics.exec hexec
    obtain ⟨l', t, rfl, hconf', htopics', hname, hoptions, hflag⟩ := ih hplaced.2 htopics hrun
    refine ⟨l', t, rfl, hconf'.trans hconf, htopics', hname, ?_, ?_⟩
    · rw [hoptions, Script.given_param_self, List.getLast?_cons, Option.map_some]
      cases (rest.given .kafkaListenerExec).getLast? <;> rfl
    · rw [hflag, Script.given_param_self]
      cases t₀.procFlag <;> rfl
  | block k line body left rest ihbody ihrest =>
    intro l t₀ ts o hplaced htopics hrun
    cases k with
    | versionInit | timerBlock | httpBlock => exact ihrest hplaced.2.2 htopics hrun
    | _ => cases hplaced.1.2

/-- The directives of a listener. -/
lemma Listener.reads_of_run (s : Script) :
    ∀ {l₀ : Listener} {ts : List Topic} {o : Obj}, s.Placed (some .kafkaListenerBlock) →
      l₀.Topics ts → Run (Sets lib unset) (.listener l₀) s.settings o →
      ∃ l, o = .listener l ∧ Listener.Reads l₀.conf ts s l := by
  induction s with
  | nil =>
    intro l₀ ts o _ htopics hrun
    obtain rfl := run_nil_iff.mp hrun
    exact ⟨l₀, rfl, ⟨[], rfl, by simp⟩, [], .nil, by rwa [List.append_nil]⟩
  | param k line rest ih =>
    intro l₀ ts o hplaced htopics hrun
    obtain ⟨o₁, ⟨h, calls, hmeaning⟩, hrun⟩ := run_cons_iff.mp hrun
    obtain ⟨-, hparam, hplace⟩ := hplaced.1
    obtain rfl : k = .kafkaListenerConfig := by
      cases k with
      | kafkaListenerConfig => rfl
      | kafkaListenerBlock => cases hparam
      | _ => cases hplace
    rcases hargs : line.args with _ | ⟨key, _ | ⟨value, _ | ⟨w, ws⟩⟩⟩ <;> rw [hargs] at hmeaning
    case cons.cons.nil =>
      obtain ⟨calls', -, heq⟩ := Except.map_eq_ok_iff.mp hmeaning
      cases heq
      have htopics' :
          ({ l₀ with conf := l₀.conf ++ [(key.cstr, value.cstr)] } : Listener).Topics ts :=
        htopics
      obtain ⟨l, rfl, hreads⟩ := ih hplaced.2 htopics' hrun
      obtain ⟨items, hgiven, hconf⟩ := hreads.conf
      refine ⟨l, rfl, ⟨(key, value) :: items, ?_, ?_⟩, hreads.topics⟩
      · rw [Script.given_param_self, hgiven, hargs]
        rfl
      · rw [hconf, List.append_assoc]
        rfl
    all_goals cases hmeaning
  | block k line body left rest ihbody ihrest =>
    intro l₀ ts o hplaced htopics hrun
    rw [Script.settings] at hrun
    split_ifs at hrun with hchild
    · obtain ⟨o₁, hblock, hrun⟩ := run_append_iff.mp hrun
      obtain ⟨o₂, ⟨h, calls, hmeaning⟩, hblock⟩ := run_cons_iff.mp hblock
      obtain rfl : k = .kafkaListenerTopic := by
        have hopens := hplaced.1.2
        cases k with
        | kafkaListenerTopic => rfl
        | versionInit | timerBlock | httpBlock | kafkaListenerBlock => cases hchild
        | _ => cases hopens
      obtain ⟨name, hargs⟩ := args_one (by simp) hmeaning
      rw [hargs] at hmeaning
      obtain ⟨l₁, hadd, heq⟩ := Except.map_eq_ok_iff.mp hmeaning
      cases heq
      obtain ⟨hconf, htopics⟩ := htopics.addTopic hadd
      obtain ⟨l₂, t, rfl, hconf', htopics', hname, hoptions, hflag⟩ :=
        Topic.reads_of_run body hplaced.2.1 htopics hblock
      obtain ⟨l, rfl, hreads⟩ := ihrest hplaced.2.2 htopics' hrun
      rw [hconf', hconf] at hreads
      obtain ⟨ts', hinner, htopics⟩ := hreads.topics
      rw [List.append_assoc] at htopics
      refine ⟨l, rfl, hreads.conf, t :: ts', ?_, htopics⟩
      rw [Script.inner, if_pos hchild, hargs]
      refine .cons ⟨by rw [hname], ?_, by rw [hflag, Bool.false_or]⟩ hinner
      rw [hoptions, Option.or_none]
    · obtain ⟨l, ho, hreads⟩ := ihrest hplaced.2.2 htopics hrun
      refine ⟨l, ho, hreads.conf, ?_⟩
      rw [Script.inner, if_neg hchild]
      exact hreads.topics

/-! ### Objects -/

/-- The text of a version block. -/
def Script.welcome (s : Script) : List UInt8 :=
  if s.given .versionArt = [] then bytes "folk song" else fsModVersionArtText

/-- The object of a block of its own, as the block reads. -/
inductive Obj.Reads (lib : Lib) (unset : Heap → Callback → Bool) : Callback × Script → Obj → Prop
    where
  | version {s} : Obj.Reads lib unset (.versionInit, s) (.version (some s.welcome))
  | timer {s t} : fsModTimerInit.Reads s t → Obj.Reads lib unset (.timerBlock, s) (.timer t)
  | http {s http} :
      Http.Reads lib unset ⟨lib.uninitPort % 2 ^ 16, none, fsAllocArr Route 1 Nat.zero_lt_one⟩ s
        http → Obj.Reads lib unset (.httpBlock, s) (.http http)
  | listener {s l} : Listener.Reads [] [] s l →
      Obj.Reads lib unset (.kafkaListenerBlock, s) (.listener l)

/-- The directives of a version block. -/
lemma version_of_run (s : Script) :
    ∀ {welcome : List UInt8} {o : Obj}, s.Placed (some .versionInit) →
      Run (Sets lib unset) (.version (some welcome)) s.settings o →
      o = .version (some (if s.given .versionArt = [] then welcome else fsModVersionArtText)) := by
  induction s with
  | nil =>
    intro welcome o _ hrun
    exact (run_nil_iff.mp hrun).symm
  | param k l rest ih =>
    intro welcome o hplaced hrun
    obtain ⟨o₁, ⟨h, calls, hmeaning⟩, hrun⟩ := run_cons_iff.mp hrun
    obtain ⟨-, hparam, hplace⟩ := hplaced.1
    obtain rfl : k = .versionArt := by
      cases k with
      | versionArt => rfl
      | versionInit => cases hparam
      | _ => cases hplace
    cases hmeaning
    rw [ih hplaced.2 hrun, ite_self, Script.given_param_self, if_neg (List.cons_ne_nil _ _)]
  | block k l body left rest ihbody ihrest =>
    intro welcome o hplaced hrun
    cases k with
    | versionInit | timerBlock | httpBlock => exact ihrest hplaced.2.2 hrun
    | _ => cases hplaced.1.2

lemma Script.placed_of_mem_bodies {s : Script} {inner : Option Callback} {b : Callback × Script}
    (hplaced : s.Placed inner) (hb : b ∈ s.bodies) :
    b.2.Placed (some b.1) ∧ b.1.child = false := by
  induction s generalizing inner with
  | nil => cases hb
  | param k l rest ih => exact ih hplaced.2 hb
  | block k l body left rest ihbody ihrest =>
    rw [Script.bodies, List.mem_append, List.mem_append] at hb
    rcases hb with (hb | hb) | hb
    · split_ifs at hb with hchild
      · cases hb
      · obtain rfl := List.mem_singleton.mp hb
        exact ⟨hplaced.2.1, by simpa using hchild⟩
    · exact ihbody hplaced.2.1 hb
    · exact ihrest hplaced.2.2 hb

/-- What the directives of a block make is what the block reads. -/
lemma MadeBy.reads {b : Callback × Script} (hplaced : b.2.Placed (some b.1))
    (hchild : b.1.child = false) (h : MadeBy lib unset b o) : o.Reads lib unset b := by
  obtain ⟨k, s⟩ := b
  cases k with
  | versionInit =>
    have hversion := version_of_run s hplaced h
    rw [hversion]
    exact .version
  | timerBlock =>
    obtain ⟨t, rfl, hreads⟩ := Timer.reads_of_run s hplaced h
    exact .timer hreads
  | httpBlock =>
    have hroutes : (⟨lib.uninitPort % 2 ^ 16, none, fsAllocArr Route 1 Nat.zero_lt_one⟩ :
        Http).Routes [] := rfl
    obtain ⟨http, rfl, hreads⟩ := Http.reads_of_run s hplaced hroutes h
    exact .http hreads
  | kafkaListenerBlock =>
    have htopics : (⟨.null, []⟩ : Listener).Topics [] := rfl
    obtain ⟨l, rfl, hreads⟩ := Listener.reads_of_run s hplaced htopics h
    exact .listener hreads
  | _ => cases hchild

/-- The objects of a script are those that its blocks read. -/
lemma Script.reads_of_eval {s : Script} {h : Heap} (hplaced : s.Placed none)
    (heval : s.eval lib unset .null ⟨[], []⟩ = .ok h) :
    List.Forall₂ (fun b o => Obj.Reads lib unset b o) s.bodies h.objs := by
  have hobjs := Script.eval_objs heval
  rw [List.forall₂_iff_get] at hobjs ⊢
  refine ⟨hobjs.1, fun i hi hi' => ?_⟩
  obtain ⟨hbody, hchild⟩ := Script.placed_of_mem_bodies hplaced (List.getElem_mem hi)
  exact MadeBy.reads hbody hchild (hobjs.2 i hi hi')

/-- An accepted script leaves one object for each block of its own, in the order of their opening
braces, and each of them holds what its block reads. -/
theorem objects_of_script (unset : Heap → Callback → Bool) (hmods : mods.Perm shippedMods)
    (hlib : ∀ (c : Engine) k, lib.uninitNull c k = unset c.heap k) (junk : Junk)
    {io : ReadOutcome} (hio : ∀ off, io off = true) {text : List UInt8} {mode : ParseMode}
    {f : FsFile} (hf : Delivered text mode f) (huncut : mode.Uncut text) {s : Script}
    (htext : textDirectives text = s.directives) (hplaced : s.Placed none)
    (hroomy : s.Roomy false 0) {tokens : FsArr FsStr} {c : Engine}
    (hok : parseEnd (shippedEnv mods lib junk) io mode (f.remaining + 2) f
      (Conf.start tokens ⟨[], []⟩) = (.ok, c)) :
    List.Forall₂ (Obj.Reads lib unset) s.bodies c.heap.objs := by
  have hbuilds := hf.builds hmods hlib junk hio huncut htext hplaced hroomy tokens
  rw [hok] at hbuilds
  obtain ⟨h, heval, hholds⟩ := holds_of_builds hbuilds rfl
  rw [hholds.heap]
  exact Script.reads_of_eval hplaced heval

end

theorem objects_of_script_mixed :
    List.Forall₂ (Obj.Reads .succeeding fun _ _ => true) mixedScript.bodies
      mixedParse.2.heap.objs :=
  objects_of_script (fun _ _ => true) (List.Perm.refl _) (fun _ _ => rfl) .null
    (fun _ => rfl) (.file []) uncut_mixedText directives_mixedScript placed_mixedScript
    roomy_mixedScript mixedParse_eq

end Folksong
