import AgentHost.Http.Server

namespace AgentHost

/-!
# No way around the checks

* `checkRequest_admitted` — what an admitted request has passed.
* `apiRoute_of_not_underApi`, `startAudit_of_not_underApi` — every route under `/v1` has a path that needs
  a token, however the target was spelled: the path that is checked is the path that is routed.
* `PublicAnswers` — what a run without a token may depend on.

**Main theorem**: `guarded_requests` — operations on data run only after the checks, but for what
`/health` and `/ready` read; a request under `/v1` that fails a check does nothing at all.
-/

/-! ### The checks -/

/-- The host check and the origin check succeed. -/
def HostAndOrigin (config : ServerConfig) (address : Option Nat) (request : HttpRequest) : Prop :=
  ∃ requestOrigin origin,
    config.security.validateHost config.platform request address = .ok requestOrigin ∧
    config.security.validateOrigin config.platform request requestOrigin = .ok origin

/-- The token check succeeds. -/
def Authenticated (config : ServerConfig) (request : HttpRequest) : Prop :=
  config.security.authenticate request = .ok ()

theorem checkRequest_admitted {config : ServerConfig} {address : Option Nat} {request : HttpRequest}
    {pathname : String} {headers : HttpHeaders}
    (h : checkRequest config.security config.platform address request pathname =
      .admitted headers) :
    HostAndOrigin config address request ∧
      (underApi pathname = true → Authenticated config request) := by
  rw [checkRequest] at h
  split at h
  · cases h
  next requestOrigin hhost =>
  split at h
  · cases h
  next origin horigin =>
  refine ⟨⟨requestOrigin, origin, hhost, horigin⟩, fun hpath => ?_⟩
  dsimp only at h
  split at h
  · split at h <;> cases h
  split at h
  · cases h
  · next hauthenticate => exact hauthenticate

/-- A refusal tells nothing but the error. -/
theorem checkRequest_preflight {config : ServerConfig} {address : Option Nat}
    {request : HttpRequest} {pathname : String} {response : HttpResponse}
    (h : checkRequest config.security config.platform address request pathname =
      .preflight response) : response.body = .empty := by
  rw [checkRequest] at h
  split at h
  · cases h
  split at h
  · cases h
  dsimp only at h
  split at h
  · split at h
    · cases h
    · rw [RequestCheck.preflight.injEq] at h
      rw [← h]
  · split at h
    · split at h <;> cases h
    · cases h

theorem sendThrown_body (headers : HttpHeaders) (thrown : Thrown) :
    ∃ code message, (sendThrown headers thrown).body = .error code message none := by
  cases thrown with
  | contract error => exact ⟨_, _, rfl⟩
  | other code => exact ⟨_, _, rfl⟩

/-! ### Paths -/

/-- A path of three parts or more that begin with the API's needs a token. -/
theorem underApi_of_pathParts {pathname part : String} {rest : List String}
    (h : pathParts pathname = "" :: "v1" :: part :: rest) : underApi pathname = true := by
  rw [pathParts] at h
  obtain ⟨first, parts, hsplit, hfirst, h⟩ := List.map_eq_cons_iff.mp h
  obtain ⟨second, parts, rfl, hsecond, h⟩ := List.map_eq_cons_iff.mp h
  obtain ⟨third, parts, rfl, -, -⟩ := List.map_eq_cons_iff.mp h
  have hjoin := Texts.join_split '/' pathname.toList
  have hempty : first = [] := by
    have := congrArg String.toList hfirst
    rwa [String.toList_ofList] at this
  have hv1 : second = ['v', '1'] := by
    have := congrArg String.toList hsecond
    rwa [String.toList_ofList] at this
  rw [hsplit, hempty, hv1, Texts.join, Texts.join] at hjoin
  have hstarts : startsWith pathname "/v1/" = true := by
    rw [startsWith, List.isPrefixOf_iff_prefix, ← hjoin]
    exact List.prefix_append "/v1/".toList _
  rw [underApi, hstarts, Bool.or_true]

section NotUnderApi

variable {pathname : String} (h : underApi pathname = false)

include h

theorem ne_of_not_underApi {path : String} (hpath : underApi path = true) : pathname ≠ path := by
  rintro rfl
  rw [hpath] at h
  exact Bool.noConfusion h

/-- No pattern of a route matches. -/
theorem matches_of_not_underApi : actionMatch pathname = none ∧ launchMatch pathname = none ∧
    retirementMatch pathname = none ∧ repositoryMatch pathname = none ∧
    agentMatch pathname = none := by
  rw [actionMatch, launchMatch, retirementMatch, repositoryMatch, agentMatch]
  refine ⟨?_, ?_, ?_, ?_, ?_⟩
  all_goals
    split
    · next hparts =>
      rw [underApi_of_pathParts hparts] at h
      exact Bool.noConfusion h
    · rfl

end NotUnderApi

/-- No route of the API has a path that needs no token. -/
theorem apiRoute_of_not_underApi {context : RouteContext}
    (h : underApi context.url.pathname = false) :
    apiRoute context = .done (sendError context.headers 404 "not_found" "route not found" none) := by
  have hne : ∀ path, underApi path = true → context.url.pathname ≠ path :=
    fun path hpath => ne_of_not_underApi h hpath
  obtain ⟨haction, hlaunch, hretirement, hrepository, hagent⟩ := matches_of_not_underApi h
  rw [apiRoute]
  dsimp only
  rw [hlaunch, hretirement, hrepository, hagent, haction, if_neg (fun h => hne _ (by decide) h.2),
    if_neg (fun h => hne _ (by decide) h.2), if_neg (fun h => Bool.noConfusion h.2),
    if_neg (fun h => Bool.noConfusion h.2), if_neg (fun h => hne _ (by decide) h.2),
    if_neg (fun h => hne _ (by decide) h.2), if_neg (fun h => hne _ (by decide) h.2),
    if_neg (fun h => hne _ (by decide) h.2), if_neg (fun h => Bool.noConfusion h.2),
    if_neg (fun h => Bool.noConfusion h.2), ite_self]
  rfl

theorem startAudit_of_not_underApi {context : RouteContext}
    (h : underApi context.url.pathname = false) : startAudit context = .done none := by
  obtain ⟨haction, -, hretirement, -, -⟩ := matches_of_not_underApi h
  rw [startAudit]
  dsimp only
  rw [haction, hretirement, if_neg]
  · rfl
  · rintro ⟨-, h | h⟩ <;> exact Bool.noConfusion h

/-! ### Runs -/

/-- The answers that a run without a token may depend on: the revision, the dashboard's files and the
    readiness without its adapters. -/
structure PublicAnswers
    (answers answers' : Nat → (operation : ServerOperation) → ServerAnswer operation) : Prop where
  revision : ∀ n, answers n .revision = answers' n .revision
  readiness : ∀ n, ({ (answers n .readiness : Readiness) with adapters := .null } : Readiness) =
    { (answers' n .readiness : Readiness) with adapters := .null }
  dashboard : ∀ n method pathname,
    answers n (.serveDashboard method pathname) = answers' n (.serveDashboard method pathname)

variable {config : ServerConfig} {address : Option Nat} {request : HttpRequest}

/-- What an admitted request for a path that needs no token does. -/
theorem handleRequest_public {url : ServerUrl} {headers : HttpHeaders}
    (hurl : routedUrl config.platform request = some url)
    (hcheck : checkRequest config.security config.platform address request url.pathname =
      .admitted headers) (hpath : underApi url.pathname = false) :
    handleRequest config address request =
      (route ⟨config.platform, config.dashboard, request, url, headers, none⟩).tryCatch
        failRequest := by
  rw [handleRequest, hurl]
  dsimp only
  rw [hcheck]
  dsimp only
  rw [startAudit_of_not_underApi hpath]
  rfl

/-- What is answered with a file of the dashboard, and without one. -/
abbrev RouteContext.afterDashboard (context : RouteContext)
    (file : Option (Nat × HttpHeaders × List UInt8)) : RequestRoutine HttpResponse :=
  match file with
  | some (status, fileHeaders, bytes) =>
    .done ⟨status, context.headers ++ fileHeaders, .file bytes⟩
  | none => apiRoute context

/-- Without a token only the health and the readiness of the registry are read. -/
theorem route_public {context : RouteContext} (hpath : underApi context.url.pathname = false)
    (haudit : context.audit = none)
    (answers : Nat → (operation : ServerOperation) → ServerAnswer operation) :
    (∀ operation ∈ (runRequest answers 0 ((route context).tryCatch failRequest)).1,
      operation.isData = true → context.request.method = "GET" ∧
        ((context.url.pathname = "/health" ∧ operation = .revision) ∨
          (context.url.pathname = "/ready" ∧ (operation = .readiness ∨ operation = .revision)))) ∧
    ∀ answers', PublicAnswers answers answers' →
      runRequest answers 0 ((route context).tryCatch failRequest) =
        runRequest answers' 0 ((route context).tryCatch failRequest) := by
  rw [route]
  split
  · next hhealth =>
    refine ⟨?_, fun answers' h => ?_⟩
    · intro operation hmem _
      rw [List.mem_singleton.mp hmem]
      exact ⟨hhealth.1, .inl ⟨hhealth.2, rfl⟩⟩
    · show ([_], _) = ([_], _)
      rw [h.revision 0]
      rfl
  split
  · next hready =>
    refine ⟨?_, fun answers' h => ?_⟩
    · intro operation hmem _
      rcases List.mem_cons.mp hmem with rfl | hmem
      · exact ⟨hready.1, .inr ⟨hready.2, .inl rfl⟩⟩
      · rw [List.mem_singleton.mp hmem]
        exact ⟨hready.1, .inr ⟨hready.2, .inr rfl⟩⟩
    · have hreadiness := h.readiness 0
      rw [Readiness.mk.injEq] at hreadiness
      obtain ⟨h₁, h₂, h₃, h₄, -⟩ := hreadiness
      show ([_, _], Except.ok _) = ([_, _], Except.ok _)
      rw [h.revision 1]
      show ([_, _], Except.ok (send _ (if Readiness.ready _ = true then 200 else 503)
        (.ready _ (Readiness.ready _) (Readiness.initialLoading _) (Readiness.refreshing _)
          (Readiness.degraded _)))) = _
      rw [h₁, h₂, h₃, h₄]
  rw [if_neg (fun h => ne_of_not_underApi hpath (by decide) h.2)]
  have hfound : ∀ answers n, runRequest answers n ((apiRoute context).tryCatch failRequest) =
      ([], .ok (sendError context.headers 404 "not_found" "route not found" none)) := by
    intro answers n
    rw [apiRoute_of_not_underApi hpath]
    rfl
  split
  · -- the file is served, the dashboard fails, or the path has no route
    have hfile : ∀ answer : Except Thrown (Option (Nat × HttpHeaders × List UInt8)), ∃ result,
        ∀ answers n, runRequest answers n
          (((context.returned answer).bind context.afterDashboard).tryCatch failRequest) =
            ([], result) := by
      intro answer
      cases answer with
      | error thrown =>
        refine ⟨.ok (sendThrown context.headers thrown), fun answers n => ?_⟩
        rw [RouteContext.returned, haudit]
        rfl
      | ok file =>
        cases file with
        | none => exact ⟨_, fun answers n => hfound answers n⟩
        | some file => exact ⟨.ok ⟨file.1, context.headers ++ file.2.1, .file file.2.2⟩,
            fun answers n => rfl⟩
    obtain ⟨result, hresult⟩ :=
      hfile (answers 0 (.serveDashboard context.request.method context.url.pathname))
    refine ⟨?_, fun answers' h => ?_⟩
    · intro operation hmem hdata
      rcases List.mem_cons.mp hmem with rfl | hmem
      · exact absurd hdata Bool.false_ne_true
      · have hrest := congrArg Prod.fst (hresult answers 1)
        exact absurd (hrest ▸ hmem) List.not_mem_nil
    · have hrest := hresult answers 1
      have hrest' := hresult answers' 1
      rw [h.dashboard 0] at hrest'
      exact congrArg (fun rest => (ServerOperation.serveDashboard context.request.method
        context.url.pathname :: rest.1, rest.2)) (hrest.trans hrest'.symm)
  · refine ⟨?_, fun answers' h => ?_⟩
    · rw [hfound]
      exact fun operation hmem => absurd hmem List.not_mem_nil
    · rw [hfound, hfound]

/-- A request that is not admitted does nothing: its response is fixed. -/
theorem handleRequest_refused
    (h : ∀ url headers, routedUrl config.platform request = some url →
      checkRequest config.security config.platform address request url.pathname ≠
        .admitted headers) :
    ∃ response : HttpResponse, handleRequest config address request = .done response ∧
      (response.body = .empty ∨ ∃ code message, response.body = .error code message none) := by
  rw [handleRequest]
  split
  · exact ⟨_, rfl, .inr (sendThrown_body _ _)⟩
  · next url hurl =>
    split
    · exact ⟨_, rfl, .inr (sendThrown_body _ _)⟩
    · next response hresponse => exact ⟨response, rfl, .inl (checkRequest_preflight hresponse)⟩
    · next headers hheaders => exact absurd hheaders (h url headers hurl)

/-- **Main theorem.** An operation on data runs only for a request that passed the checks of its host and
    its origin, and that passed the check of its token too unless it is what `GET /health` and
    `GET /ready` read. A request under `/v1` that fails a check does nothing whatever the registry
    holds, and what any request that fails a check is answered depends on no more than
    `PublicAnswers` says. -/
theorem guarded_requests (config : ServerConfig) (address : Option Nat) (request : HttpRequest) :
    (∀ answers, ∀ operation ∈ (runRequest answers 0 (handleRequest config address request)).1,
      operation.isData = true → HostAndOrigin config address request ∧
        (Authenticated config request ∨
          ∃ url, routedUrl config.platform request = some url ∧ request.method = "GET" ∧
            ((url.pathname = "/health" ∧ operation = .revision) ∨
              (url.pathname = "/ready" ∧
                (operation = .readiness ∨ operation = .revision))))) ∧
    (∀ url, routedUrl config.platform request = some url → underApi url.pathname = true →
      ¬ (HostAndOrigin config address request ∧ Authenticated config request) →
      ∃ response : HttpResponse,
        (response.body = .empty ∨ ∃ code message, response.body = .error code message none) ∧
        ∀ answers, runRequest answers 0 (handleRequest config address request) =
          ([], .ok response)) ∧
    (¬ (HostAndOrigin config address request ∧ Authenticated config request) →
      ∀ answers answers', PublicAnswers answers answers' →
        runRequest answers 0 (handleRequest config address request) =
          runRequest answers' 0 (handleRequest config address request)) := by
  by_cases hadmitted : ∃ url headers, routedUrl config.platform request = some url ∧
      checkRequest config.security config.platform address request url.pathname =
        .admitted headers
  · obtain ⟨url, headers, hurl, hcheck⟩ := hadmitted
    obtain ⟨horigin, htoken⟩ := checkRequest_admitted hcheck
    cases hpath : underApi url.pathname with
    | true =>
      have hauthenticated := htoken hpath
      refine ⟨fun answers operation _ _ => ⟨horigin, .inl hauthenticated⟩, ?_, ?_⟩
      · exact fun _ _ _ hfails => absurd ⟨horigin, hauthenticated⟩ hfails
      · exact fun hfails => absurd ⟨horigin, hauthenticated⟩ hfails
    | false =>
      rw [handleRequest_public hurl hcheck hpath]
      refine ⟨fun answers operation hmem hdata => ⟨horigin, .inr ⟨url, hurl, ?_⟩⟩, ?_, ?_⟩
      · exact (@route_public ⟨config.platform, config.dashboard, request, url, headers, none⟩ hpath
          rfl answers).1 operation hmem hdata
      · intro url' hurl' hpath'
        rw [hurl, Option.some.injEq] at hurl'
        rw [← hurl', hpath] at hpath'
        exact Bool.noConfusion hpath'
      · exact fun _ answers answers' h => (route_public hpath rfl answers).2 answers' h
  · obtain ⟨response, hresponse, hbody⟩ := @handleRequest_refused config address request
      fun url headers hurl hcheck => hadmitted ⟨url, headers, hurl, hcheck⟩
    rw [hresponse]
    refine ⟨?_, ?_, ?_⟩
    · exact fun answers operation hmem => absurd hmem List.not_mem_nil
    · exact fun _ _ _ _ => ⟨response, hbody, fun answers => rfl⟩
    · exact fun _ answers answers' _ => rfl

/-! ### A server at work -/

/-- An environment that knows the targets and hosts of the examples below. -/
def examplePlatform : HttpPlatform where
  parseUrl := fun text => some ⟨"http:", "127.0.0.1", "8080", text, "/", []⟩
  parseTarget := fun target => some ⟨"http:", "localhost", "", "http://localhost", target, []⟩
  assignPathname := fun url pathname => { url with pathname }
  decodeURIComponent := some
  encodeURIComponent := id
  toUpperCase := id

def exampleConfig : ServerConfig where
  security := ⟨"token", false, [], ["127.0.0.1"], 8080⟩
  platform := examplePlatform
  dashboard := false

/-- A request of the server's own host, without a token. -/
def exampleRequest (target : String) : HttpRequest :=
  ⟨"GET", some target, some "127.0.0.1:8080", none, none, none, none, none, none⟩

/-- A registry that answers with a revision. -/
def exampleAnswers (revision : Nat) (_ : Nat) : (operation : ServerOperation) →
    ServerAnswer operation
  | .revision => revision
  | .readiness => ⟨true, false, false, false, .null⟩
  | .emitAudit _ _ | .log _ => ()
  | .launchCapabilities | .diagnostics => .ok .null
  | .submitLaunch _ _ => .ok ("", .null)
  | .getLaunch _ | .getAgent _ => none
  | .retireLaunch _ _ _ => .ok (false, .null)
  | .listView _ _ => .ok .null
  | .refresh => .ok 0
  | .subscribe => (0, false)
  | .repositoryContext _ => .ok none
  | .executeAction _ _ _ _ => .ok ⟨true, none, none, none, none, .null, false⟩
  | .serveDashboard _ _ => .ok none
  | .jsonBody => .ok .null
  | .randomUUID => ""
  | .stopping => false

/-- A request without a token. -/
theorem not_authenticated_example (target : String) :
    ¬ Authenticated exampleConfig (exampleRequest target) := by
  intro h
  rw [Authenticated, ApiSecurity.authenticate] at h
  cases h

/-- A request under `/v1` without a token, whatever the registry holds. -/
theorem guarded_requests_example : ∃ response : HttpResponse, ∀ answers,
    runRequest answers 0 (handleRequest exampleConfig (some 8080) (exampleRequest "/v1/agents")) =
      ([], .ok response) := by
  obtain ⟨response, -, hrun⟩ :=
    (guarded_requests exampleConfig (some 8080) (exampleRequest "/v1/agents")).2.1
      ⟨"http:", "localhost", "", "http://localhost", "/v1/agents", []⟩ rfl (by decide)
      (fun h => not_authenticated_example "/v1/agents" h.2)
  exact ⟨response, hrun⟩

/-- The registry is read for `/ready` without a token. -/
theorem ready_without_token :
    ¬ Authenticated exampleConfig (exampleRequest "/ready") ∧
    ∃ operation ∈ (runRequest (exampleAnswers 7) 0
        (handleRequest exampleConfig (some 8080) (exampleRequest "/ready"))).1,
      operation.isData = true := by
  refine ⟨not_authenticated_example "/ready", .readiness, ?_, rfl⟩
  exact List.mem_cons_self

end AgentHost
