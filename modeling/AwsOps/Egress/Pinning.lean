import AwsOps.Egress.AlwaysBlocked

/-!
# Pinned connections

`set_request_conn`, `assert_host_allowed` and `http_json` of the connectors, over any sequence of
invocations of a warm container. The parsers of URLs are parameters, and so is what the network does
at each call: what names resolve to, which addresses can be connected to, and what the peer answers.
A call is told by the addresses that it opens sockets to and by the URLs that it requests.
-/

namespace AwsOps.Egress

open List IpAddress

/-- The text of an address. -/
abbrev Ip : Type :=
  List Char

/-- What `urlparse` and the request of `urllib` read of a URL. The port may be out of range. -/
structure UrlParser where
  scheme : List Char → List Char
  hostname : List Char → Option (List Char)
  port : List Char → Except String (Option Nat)
  requestType : List Char → List Char
  requestHost : List Char → List Char

/-- The answer of a peer: a status, or a redirect to another URL. -/
inductive Answer
  | status (code : Nat)
  | redirect (newurl : List Char)

/-- What the network does during a call. -/
structure Environment where
  resolve : List Char → Nat → Except String (List Ip)
  connectLookup : List Char → List Ip
  connects : Ip → Bool
  answer : List Char → Answer

/-! ## Vetting -/

/-- `_PINNED_IP_CACHE`. -/
abbrev Pins : Type :=
  List Char → Option (List Ip)

/-- The loop of `assert_host_allowed` over the addresses: the distinct ones, if none is blocked. -/
def vet (host : List Char) : List Ip → List Ip → Except String (List Ip)
  | pinned, [] => .ok pinned
  | pinned, ip :: rest =>
    if ipAlwaysBlocked ip then
      .error ("endpoint blocked: " ++ String.ofList host ++ " resolved to blocked IP " ++
        String.ofList ip)
    else vet host (if ip ∈ pinned then pinned else pinned ++ [ip]) rest

variable (parser : UrlParser)

/-- The host that `assert_host_allowed` resolves, and what it resolves to. -/
def resolution (network : Environment) (endpoint : List Char) :
    Except String (List Char × List Ip) :=
  if Char.ofNat 92 ∈ endpoint then .error "endpoint blocked: must not contain a backslash"
  else if parser.scheme endpoint ≠ "http".toList ∧ parser.scheme endpoint ≠ "https".toList then
    .error ("endpoint blocked: scheme '" ++ String.ofList (parser.scheme endpoint) ++
      "' not allowed (http/https only)")
  else match parser.hostname endpoint with
    | none | some [] => .error "endpoint blocked: missing host in URL"
    | some host => do
        let port ← parser.port endpoint
        let standard := if parser.scheme endpoint = "https".toList then 443 else 80
        let port := match port with
          | none | some 0 => standard
          | some port => port
        match network.resolve host port with
        | .error e =>
          .error ("endpoint blocked: cannot resolve host " ++ String.ofList host ++ ": " ++ e)
        | .ok [] => .error ("endpoint blocked: cannot resolve host " ++ String.ofList host)
        | .ok ips => .ok (host, ips)

/-- `assert_host_allowed`: the pins after it, if it accepts the endpoint. -/
def assertHostAllowed (pins : Pins) (network : Environment) (endpoint : List Char) :
    Except String Pins :=
  match resolution parser network endpoint with
  | .error e => .error e
  | .ok (host, ips) =>
    match vet host [] ips with
    | .error e => .error e
    | .ok pinned => .ok fun other => if other = host then some pinned else pins other

/-! ## Requests -/

/-- The handlers of an opener that matter: whether redirects are followed, the proxies by scheme, and
the addresses that HTTP connections are pinned to. -/
structure Opener where
  followsRedirects : Bool
  proxies : List (List Char × List Char)
  pinned : Option (List Ip)

/-- `_opener`. -/
def sharedOpener : Opener where
  followsRedirects := false
  proxies := []
  pinned := none

def openerFor (pins : Pins) (host : Option (List Char)) : Opener :=
  match host.bind pins with
  | none | some [] => sharedOpener
  | some ips => { followsRedirects := false, proxies := [], pinned := some ips }

/-- What a call does: the sockets that it opens, the URLs that it requests, and its outcome. -/
structure Effects where
  sockets : List Ip
  requests : List (List Char)
  outcome : Except String Nat

/-- The addresses that a connection is attempted to: one after the other, until one connects. -/
def attempts (connects : Ip → Bool) : List Ip → List Ip × Bool
  | [] => ([], false)
  | ip :: rest =>
    if connects ip then ([ip], true)
    else
      let (more, connected) := attempts connects rest
      (ip :: more, connected)

/-- The addresses that the handler for a URL connects to: those of a proxy, the pinned ones, or those
that the host of the request resolves to. The handlers of HTTP look up all addresses, the one of FTP
the first one, and the others open no sockets. -/
def targets (opener : Opener) (network : Environment) (url : List Char) : List Ip :=
  let type := parser.requestType url
  match opener.proxies.lookup type with
  | some proxy => network.connectLookup proxy
  | none =>
    if type = "http".toList ∨ type = "https".toList then
      opener.pinned.getD (network.connectLookup (parser.requestHost url))
    else if type = "ftp".toList then (network.connectLookup (parser.requestHost url)).take 1
    else []

/-- `open` of an opener, which follows at most the given number of redirects. -/
def openUrl (opener : Opener) (network : Environment) : Nat → List Char → Effects
  | fuel, url =>
    let (sockets, connected) := attempts network.connects (targets parser opener network url)
    if connected then
      match network.answer url with
      | .status code => ⟨sockets, [url], .ok code⟩
      | .redirect newurl =>
        match opener.followsRedirects, fuel with
        | true, fuel + 1 =>
          let next := openUrl opener network fuel newurl
          ⟨sockets ++ next.sockets, url :: next.requests, next.outcome⟩
        | true, 0 => ⟨sockets, [url], .error "too many redirects"⟩
        | false, _ =>
          ⟨sockets, [url], .error ("endpoint blocked: redirect to " ++
            String.ofList newurl ++ " not followed")⟩
    else ⟨sockets, [], .error "connection failed"⟩

/-- `http_json`, up to the body. -/
def httpJson (pins : Pins) (network : Environment) (url : List Char) : Effects :=
  openUrl parser (openerFor pins (parser.hostname url)) network 10 url

/-! ## Runs -/

/-- The calls of a connector. -/
inductive Call
  | setRequestConn
  | assertHostAllowed (endpoint : List Char)
  | httpJson (url : List Char)

/-- A call, and what the network does during it. -/
structure Event where
  call : Call
  network : Environment

/-- The pins after a call. -/
def step (pins : Pins) (event : Event) : Pins :=
  match event.call with
  | .setRequestConn => fun _ => none
  | .assertHostAllowed endpoint =>
    match assertHostAllowed parser pins event.network endpoint with
    | .ok pins => pins
    | .error _ => pins
  | .httpJson _ => pins

/-- The pins after a run that begins when the module is loaded. -/
def run (events : List Event) : Pins :=
  events.foldl (step parser) fun _ => none

def acceptedResolution (host : List Char) (event : Event) (endpoint : List Char) :
    Option (List Ip) :=
  match resolution parser event.network endpoint with
  | .error _ => none
  | .ok (accepted, ips) =>
    match vet accepted [] ips with
    | .error _ => none
    | .ok _ => if accepted = host then some ips else none

/-- The latest accepted resolution of a host in the invocation that is going on, after an event. -/
def acceptStep (host : List Char) (latest : Option (List Ip)) (event : Event) : Option (List Ip) :=
  match event.call with
  | .setRequestConn => none
  | .assertHostAllowed endpoint => (acceptedResolution parser host event endpoint).or latest
  | .httpJson _ => latest

/-- The latest accepted resolution of a host in the invocation that a run ends in. -/
def latestAccepted (host : List Char) (events : List Event) : Option (List Ip) :=
  events.foldl (acceptStep parser host) none

variable {parser}

/-! ## The invariant -/

variable {ips : List Ip} {opener : Opener}

theorem vet_spec {host : List Char} {pinned result : List Ip}
    (h : vet host pinned ips = .ok result) :
    (∀ ip ∈ result, ip ∈ pinned ∨ ip ∈ ips ∧ ipAlwaysBlocked ip = false) ∧
      (pinned ≠ [] ∨ ips ≠ [] → result ≠ []) := by
  induction ips generalizing pinned with
  | nil =>
    obtain rfl := Except.ok.inj h
    exact ⟨fun ip hip => .inl hip, fun hne => hne.resolve_right (· rfl)⟩
  | cons ip rest ih =>
    rw [vet] at h
    split at h
    · cases h
    · next hallowed =>
        obtain ⟨hmem, hne⟩ := ih h
        refine ⟨fun other hother => ?_, fun _ => hne (.inl ?_)⟩
        · rcases hmem other hother with hpinned | ⟨hrest, hfree⟩
          · split at hpinned
            · exact .inl hpinned
            · rcases mem_append.mp hpinned with hold | hnew
              · exact .inl hold
              · obtain rfl := mem_singleton.mp hnew
                exact .inr ⟨mem_cons_self, by simpa using hallowed⟩
          · exact .inr ⟨mem_cons_of_mem ip hrest, hfree⟩
        · split
          · next hin => exact ne_nil_of_mem hin
          · simp

theorem resolution_nonempty {network : Environment} {endpoint host : List Char}
    (h : resolution parser network endpoint = .ok (host, ips)) : ips ≠ [] := by
  unfold resolution at h
  split at h
  · cases h
  split at h
  · cases h
  split at h
  · cases h
  · cases h
  · cases hport : parser.port endpoint with
    | error e =>
      rw [hport] at h
      cases h
    | ok port =>
      rw [hport] at h
      simp only [bind, Except.bind] at h
      split at h
      · cases h
      · cases h
      · next hne hresolve =>
          obtain ⟨rfl, rfl⟩ := Prod.mk.inj (Except.ok.inj h)
          rintro rfl
          exact hne rfl

/-- The pins of a host are vetted addresses of its latest accepted resolution. -/
def Agrees (pinned latest : Option (List Ip)) : Prop :=
  match latest with
  | none => pinned = none
  | some ips => ∃ addresses, pinned = some addresses ∧ addresses ≠ [] ∧
      ∀ ip ∈ addresses, ip ∈ ips ∧ ipAlwaysBlocked ip = false

theorem step_agrees {pins : Pins} {host : List Char} {latest : Option (List Ip)} (event : Event)
    (h : Agrees (pins host) latest) :
    Agrees (step parser pins event host) (acceptStep parser host latest event) := by
  unfold step acceptStep
  cases event.call with
  | setRequestConn => exact rfl
  | httpJson url => exact h
  | assertHostAllowed endpoint =>
    simp only [assertHostAllowed, acceptedResolution]
    cases hresolution : resolution parser event.network endpoint with
    | error e => exact h
    | ok found =>
      obtain ⟨accepted, ips⟩ := found
      simp only []
      cases hvet : vet accepted [] ips with
      | error e => exact h
      | ok addresses =>
        obtain ⟨hmem, hne⟩ := vet_spec hvet
        simp only []
        by_cases hhost : accepted = host
        · rw [if_pos hhost.symm, if_pos hhost]
          refine ⟨addresses, rfl, hne (.inr (resolution_nonempty hresolution)), ?_⟩
          intro ip hip
          exact (hmem ip hip).resolve_left not_mem_nil
        · rw [if_neg (Ne.symm hhost), if_neg hhost]
          exact h

theorem run_agrees (events : List Event) (host : List Char) :
    Agrees (run parser events host) (latestAccepted parser host events) := by
  have hfold : ∀ (events : List Event) (pins : Pins) (latest : Option (List Ip)),
      Agrees (pins host) latest → Agrees (events.foldl (step parser) pins host)
          (events.foldl (acceptStep parser host) latest) := by
    intro events
    induction events with
    | nil => exact fun _ _ h => h
    | cons event events ih => exact fun pins latest h => ih _ _ (step_agrees event h)
  exact hfold events _ _ rfl

/-! ## Sockets -/

theorem attempts_sub (connects : Ip → Bool) (ips : List Ip) :
    ∀ ip ∈ (attempts connects ips).1, ip ∈ ips := by
  induction ips with
  | nil => exact fun _ h => h
  | cons first rest ih =>
    intro ip hip
    rw [attempts] at hip
    split at hip
    · obtain rfl := mem_singleton.mp hip
      exact mem_cons_self
    · rcases mem_cons.mp hip with rfl | hmem
      · exact mem_cons_self
      · exact mem_cons_of_mem first (ih ip hmem)

theorem open_url_effects (hredirects : opener.followsRedirects = false) (network : Environment)
    (fuel : Nat) (url : List Char) :
    (∀ ip ∈ (openUrl parser opener network fuel url).sockets,
        ip ∈ targets parser opener network url) ∧
      ∀ request ∈ (openUrl parser opener network fuel url).requests, request = url := by
  have hsub := attempts_sub network.connects (targets parser opener network url)
  unfold openUrl
  cases hattempts : attempts network.connects (targets parser opener network url) with
  | mk sockets connected =>
    rw [hattempts] at hsub
    cases connected with
    | false => exact ⟨hsub, by simp⟩
    | true =>
      cases hanswer : network.answer url with
      | status code => simpa [hanswer] using hsub
      | redirect newurl => simpa [hanswer, hredirects] using hsub

theorem opener_for_direct (pins : Pins) (host : Option (List Char)) :
    (openerFor pins host).followsRedirects = false ∧ (openerFor pins host).proxies = [] := by
  unfold openerFor
  split <;> exact ⟨rfl, rfl⟩

theorem opener_for_pinned {pins : Pins} {host : List Char} (hpins : pins host = some ips)
    (hne : ips ≠ []) :
    (openerFor pins (some host)).pinned = some ips := by
  obtain ⟨ip, rest, rfl⟩ := exists_cons_of_ne_nil hne
  simp [openerFor, hpins]

theorem targets_pinned (hproxies : opener.proxies = []) (hpinned : opener.pinned = some ips)
    (network : Environment) {url : List Char} (hftp : parser.requestType url ≠ "ftp".toList) :
    ∀ ip ∈ targets parser opener network url, ip ∈ ips := by
  intro ip hip
  simp only [targets, hproxies, hpinned, lookup_nil, Option.getD_some] at hip
  split at hip
  · exact hip
  · cases hip

/-! ## Connections -/

/-- In every run, a request for a host that was accepted in the same invocation, other than by FTP,
opens sockets only to vetted addresses of the latest accepted resolution of the host, and follows no
redirect; a host that was not accepted in the invocation is not pinned. And every IPv6 address that
stands for a blocked IPv4 address is blocked. -/
theorem connections_vetted (parser : UrlParser) :
    (∀ (events : List Event) (network : Environment) (url host : List Char) (ips : List Ip),
      parser.hostname url = some host → latestAccepted parser host events = some ips →
        parser.requestType url ≠ "ftp".toList →
          (∀ ip ∈ (httpJson parser (run parser events) network url).sockets,
            ip ∈ ips ∧ ipAlwaysBlocked ip = false) ∧
          ∀ request ∈ (httpJson parser (run parser events) network url).requests, request = url) ∧
    (∀ (events : List Event) (host : List Char), latestAccepted parser host events = none →
      run parser events host = none) ∧
    ∀ (text4 text6 : List Char) (v4 v6 : Nat), ipAddress text4 = some ⟨.v4, v4⟩ →
      ipAddress text6 = some ⟨.v6, v6⟩ → Embeds v6 v4 → ipAlwaysBlocked text4 = true →
        ipAlwaysBlocked text6 = true := by
  refine ⟨?_, ?_, ?_⟩
  · intro events network url host ips hhost hlatest hftp
    have hagrees : Agrees (run parser events host) (latestAccepted parser host events) :=
      run_agrees events host
    rw [hlatest] at hagrees
    obtain ⟨addresses, hpins, hne, hvetted⟩ := hagrees
    have hopener := opener_for_direct (run parser events) (parser.hostname url)
    obtain ⟨hsockets, hrequests⟩ := @open_url_effects parser _ hopener.1 network 10 url
    refine ⟨fun ip hip => hvetted ip ?_, hrequests⟩
    have hpinned : (openerFor (run parser events) (parser.hostname url)).pinned = some addresses := by
      rw [hhost]
      exact opener_for_pinned hpins hne
    exact targets_pinned hopener.2 hpinned network hftp ip (hsockets ip hip)
  · intro events host hlatest
    have hagrees : Agrees (run parser events host) (latestAccepted parser host events) :=
      run_agrees events host
    rw [hlatest] at hagrees
    exact hagrees
  · intro text4 text6 v4 v6 h4 h6 hembeds hblocked
    unfold ipAlwaysBlocked at hblocked ⊢
    rw [h4] at hblocked
    rw [h6]
    refine embedded_blocked hembeds _ ?_
    rw [← blocked_v4 ('%' ∈ text4)]
    exact hblocked

/-- URLs of a scheme, `://` and a host, and nothing else. -/
def plainParser : UrlParser where
  scheme url := url.takeWhile (· != ':')
  hostname url := some ((url.dropWhile (· != ':')).drop 3)
  port _ := .ok none
  requestType url := url.takeWhile (· != ':')
  requestHost url := (url.dropWhile (· != ':')).drop 3

/-- A name that resolves to a private address when it is checked, and to the metadata address when a
connection looks it up. -/
def rebinding : Environment where
  resolve _ _ := .ok ["10.0.0.5".toList]
  connectLookup _ := ["169.254.169.254".toList]
  connects _ := true
  answer _ := .status 200

/-- An invocation in which the host is accepted. -/
def acceptedRun : List Event :=
  [⟨.setRequestConn, rebinding⟩, ⟨.assertHostAllowed "http://ds".toList, rebinding⟩]

theorem connections_vetted_http :
    (httpJson plainParser (run plainParser acceptedRun) rebinding "http://ds".toList).sockets =
        ["10.0.0.5".toList] ∧
      ∀ ip ∈ (httpJson plainParser (run plainParser acceptedRun) rebinding
        "http://ds".toList).sockets, ip ∈ ["10.0.0.5".toList] ∧ ipAlwaysBlocked ip = false :=
  ⟨by decide +kernel, ((connections_vetted plainParser).1 acceptedRun rebinding "http://ds".toList
    "ds".toList ["10.0.0.5".toList] (by decide) (by decide +kernel) (by decide)).1⟩

theorem ftp_opens_unvetted :
    latestAccepted plainParser "ds".toList acceptedRun = some ["10.0.0.5".toList] ∧
      plainParser.hostname "ftp://ds".toList = some "ds".toList ∧
      (httpJson plainParser (run plainParser acceptedRun) rebinding "ftp://ds".toList).sockets =
        ["169.254.169.254".toList] ∧
      ipAlwaysBlocked "169.254.169.254".toList = true := by
  refine ⟨by decide +kernel, by decide, by decide +kernel, by decide +kernel⟩

end AwsOps.Egress
