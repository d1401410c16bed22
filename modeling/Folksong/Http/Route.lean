import Folksong.Http.Answer
import Folksong.Lib.Search
import Folksong.Mod.Effects

/-!
# The route of a request (`fs_mod_http_on_headers_complete`)

A route whose pattern is null matches every url, and so does one whose pattern fails to be matched
for another reason than that it does not match.
-/

namespace Folksong

/-! ### Configured routes -/

/-- The pattern of a route as it is written in the configuration. -/
def Route.path : Route → List UInt8
  | .publisher p => p.path.cstr
  | .proxy p => p.path.cstr

/-- What the configuration leaves in a route, when `compiles` says which patterns are regular
expressions: only the block of a proxy rejects the others. -/
structure Route.Accepted (compiles : List UInt8 → Bool) (route : Route) : Prop where
  pathRe : route.pathRe = if compiles route.path then some route.path else none
  proxy : route.kind = .proxy → compiles route.path = true

/-! ### Selection -/

/-- The pattern of the route is a regular expression that matches the url. -/
def Route.chosen (compiles : List UInt8 → Bool) (pcre : Pcre) (url : List UInt8)
    (route : Route) : Bool :=
  compiles route.path &&
    match pcre.exec route.path url with
    | .matched _ => true
    | .noMatch => false
    | .failed => false

/-- A request goes to the first route whose pattern matches, and gets `404` when there is none. -/
structure Routed (compiles : List UInt8 → Bool) (pcre : Pcre) (routes : List Route)
    (url : List UInt8) (a : HttpAnswer) (ops : Option (List PublishOp)) : Prop where
  first : a.route = routes.findIdx? (·.chosen compiles pcre url)
  notFound : ops = some [.respond 404] ↔ ∀ route ∈ routes, ¬ route.chosen compiles pcre url

section

variable {compiles : List UInt8 → Bool} {pcre : Pcre} {routes : List Route} {url : List UInt8}

lemma Route.matches_of_chosen {route : Route} (ha : route.Accepted compiles)
    (hc : route.chosen compiles pcre url) : route.matches pcre url := by
  rw [Route.chosen, Bool.and_eq_true] at hc
  obtain ⟨hcompiles, hmatched⟩ := hc
  rw [Route.matches, ha.pathRe, if_pos hcompiles]
  cases h : pcre.exec route.path url <;> simp_all

/-- What else is taken for a match. -/
lemma Route.matches_iff {route : Route} (ha : route.Accepted compiles)
    (hc : ¬ route.chosen compiles pcre url) :
    route.matches pcre url ↔
      compiles route.path = false ∨ pcre.exec route.path url = .failed := by
  rw [Route.matches, ha.pathRe]
  cases hcompiles : compiles route.path with
  | false => simp
  | true =>
    rw [Route.chosen, hcompiles] at hc
    cases h : pcre.exec route.path url <;> simp_all

/-- The route is the first one whose pattern matches exactly when none of those before it has a
pattern that is no regular expression or fails to be matched. -/
lemma findIdx?_matches_iff (ha : ∀ route ∈ routes, route.Accepted compiles) :
    routes.findIdx? (·.matches pcre url) = routes.findIdx? (·.chosen compiles pcre url) ↔
      ∀ pre route post, routes = pre ++ route :: post →
        compiles route.path = false ∨ pcre.exec route.path url = .failed →
        ∃ route' ∈ pre, route'.chosen compiles pcre url := by
  rw [Search.findIdx?_eq_findIdx?_iff fun route hmem => Route.matches_of_chosen (ha route hmem)]
  refine forall_congr' fun pre => forall_congr' fun route => forall_congr' fun post =>
    forall_congr' fun heq => ?_
  have hroute : route.Accepted compiles := ha route (by simp [heq])
  by_cases hc : route.chosen compiles pcre url = true
  · have hnot : ¬ (compiles route.path = false ∨ pcre.exec route.path url = .failed) := by
      rw [Route.chosen, Bool.and_eq_true] at hc
      obtain ⟨hcompiles, hmatched⟩ := hc
      rintro (hno | hfailed)
      · rw [hcompiles] at hno
        cases hno
      · rw [hfailed] at hmatched
        cases hmatched
    exact iff_of_true (fun _ => ⟨route, by simp, hc⟩) fun h => absurd h hnot
  · rw [Route.matches_iff hroute hc]
    refine imp_congr_right fun _ => ?_
    simp [hc]

/-- `404` is what a request without a route gets, and no other. -/
lemma messageComplete_notFound {named : PcreNamed} {o : RdKafka} {r : Request} :
    fsModHttpOnMessageComplete routes named o (HttpReq.fresh.answerTo routes pcre r)
        = some [.respond 404] ↔
      routes.findIdx? (·.matches pcre r.url) = none := by
  rw [fsModHttpOnMessageComplete, answerTo_route]
  cases hindex : routes.findIdx? (·.matches pcre r.url) with
  | none => simp
  | some i =>
    have hi : i < routes.length := (List.findIdx?_eq_some_iff_getElem.mp hindex).1
    refine iff_of_false ?_ (by simp)
    dsimp only
    rw [List.getElem?_eq_getElem hi]
    cases hp : routes[i] with
    | proxy p =>
      dsimp only
      unfold fsModHttpProxyDoneCb
      split <;> simp
    | publisher p =>
      have hheld : r.HeldBy (HttpReq.fresh.answerTo routes pcre r) :=
        answerTo_heldBy hindex (by rw [List.getElem?_eq_getElem hi, hp])
      intro hops
      obtain ⟨code, hcodes, hne⟩ := ((doneCb_cases hheld).1 _ hops).one
      have hcode : [404] = [code] := hcodes
      exact hne (List.singleton_inj.mp hcode).symm

end

/-- A request that arrives alone goes to the first route whose pattern is a regular expression
that matches its url, and gets `404` exactly when there is none, if and only if behind the routes
with such a pattern only stands each route whose pattern is no regular expression or fails to be
matched. -/
theorem routed_iff {compiles : List UInt8 → Bool} {pcre : Pcre} {named : PcreNamed}
    {o : RdKafka} {routes : List Route} (ha : ∀ route ∈ routes, route.Accepted compiles)
    {r : Request} {evs : List HttpEvent} (hd : Delivers r evs) :
    (∃ a, answers routes pcre evs = [a] ∧
        Routed compiles pcre routes r.url a (fsModHttpOnMessageComplete routes named o a)) ↔
      ∀ pre route post, routes = pre ++ route :: post →
        compiles route.path = false ∨ pcre.exec route.path r.url = .failed →
        ∃ route' ∈ pre, route'.chosen compiles pcre r.url := by
  rw [answers_alone routes pcre hd, ← findIdx?_matches_iff ha]
  constructor
  · rintro ⟨a, heq, hfirst, -⟩
    obtain rfl := List.singleton_inj.mp heq
    rw [← hfirst, answerTo_route]
  · intro hindex
    refine ⟨_, rfl, answerTo_route.trans hindex, ?_⟩
    rw [messageComplete_notFound, hindex, List.findIdx?_eq_none_iff]
    simp

/-- One publisher, and a url that its pattern matches. -/
theorem routed_iff_publisher :
    (∃ a, answers [.publisher (.withKey .null)] .matching
        [.url (bytes "/a"), .headersComplete, .body (bytes "x"), .messageComplete] = [a] ∧
        Routed (fun _ => true) .matching [.publisher (.withKey .null)]
          (Request.posted (bytes "/a") (bytes "x") (by decide)).url a
          (fsModHttpOnMessageComplete [.publisher (.withKey .null)] (fun _ _ _ => none)
            .succeeding a)) ↔
      ∀ (pre : List Route) (route : Route) (post : List Route),
        [.publisher (.withKey .null)] = pre ++ route :: post →
        (fun _ => true) route.path = false ∨
          Pcre.matching.exec route.path
            (Request.posted (bytes "/a") (bytes "x") (by decide)).url = .failed →
        ∃ route' ∈ pre, route'.chosen (fun _ => true) .matching
          (Request.posted (bytes "/a") (bytes "x") (by decide)).url :=
  routed_iff (List.forall_mem_singleton.mpr ⟨rfl, fun _ => rfl⟩)
    (Delivers.posted (bytes "/a") (bytes "x") (by decide) (by decide))

/-- A publisher whose pattern is no regular expression. -/
def Publisher.unmatched : Publisher where
  path := ⟨bytes "(", 2⟩
  pathRe := none
  topicParam := .null
  defaultTopic := .null
  keyParam := .null
  defaultKey := .null
  conf := fsAllocArr (FsStr × FsStr) 2 Nat.two_pos

/-- It gets every request. -/
theorem not_routed :
    ¬ ∀ (compiles : List UInt8 → Bool) (pcre : Pcre) (named : PcreNamed) (o : RdKafka)
        (routes : List Route) (r : Request) (evs : List HttpEvent),
      (∀ route ∈ routes, route.Accepted compiles) → Delivers r evs →
        ∃ a, answers routes pcre evs = [a] ∧
          Routed compiles pcre routes r.url a (fsModHttpOnMessageComplete routes named o a) := by
  intro h
  obtain ⟨a, ha, hfirst, -⟩ := h (fun _ => false) .refusing (fun _ _ _ => none)
    .succeeding [.publisher .unmatched] _ _
    (List.forall_mem_singleton.mpr ⟨rfl, fun hkind => by cases hkind⟩)
    (Delivers.posted (bytes "/a") (bytes "x") (by decide) (by decide))
  have hroute := congrArg (List.map HttpAnswer.route) ha
  rw [List.map_singleton, hfirst] at hroute
  revert hroute
  decide

end Folksong
