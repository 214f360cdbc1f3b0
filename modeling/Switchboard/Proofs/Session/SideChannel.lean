import Switchboard.Proofs.Session.HostRoot

/-!
# The side channel for sizes

Sizes are asked for beside the stream, over plain HTTP, on the same host. Does the request reach the
server that holds the stream, as securely as the stream does, and does it say which stream is meant?
It does for every endpoint: a port that the one scheme implies is implied by the other, so leaving
it out changes nothing (`Url.effectivePort?_withNetworkScheme?`), whatever the endpoint asked is
dropped, and an id is read back as it is, from the request as from the stream (`sideChannel`).
-/

namespace Switchboard

namespace Url

variable {u v : Url} {scheme : String}

/-- The user that a URL names, with the password. -/
def userInfo? (u : Url) : Option (String × Option String) :=
  u.authority.map fun a => (a.username, a.password)

/-- The id that ties a URL to a stream. It is added last, so it is the last one that counts. -/
def resizeId? (u : Url) : Option String :=
  (u.queryPairs.reverse.find? (·.1 == "resize_id")).map (·.2)

/-! ## Another scheme for the same host -/

/-- Only a URL with a host gets a network scheme, and nothing but the scheme and a port that need
not be written changes. -/
theorem withNetworkScheme?_eq_some (h : u.withNetworkScheme? scheme = some v) :
    ∃ a, u.authority = some a ∧
      v = { u with
        scheme
        authority := some { a with port := a.port.filter (defaultPort? scheme != some ·) } } := by
  unfold withNetworkScheme? at h
  split at h
  · next a ha =>
      split at h
      · exact ⟨a, ha, (Option.some.inj h).symm⟩
      · cases h
  · cases h

theorem host?_withNetworkScheme? (h : u.withNetworkScheme? scheme = some v) :
    v.host? = u.host? := by
  obtain ⟨a, ha, rfl⟩ := withNetworkScheme?_eq_some h
  rw [host?, host?, ha]
  rfl

theorem userInfo?_withNetworkScheme? (h : u.withNetworkScheme? scheme = some v) :
    v.userInfo? = u.userInfo? := by
  obtain ⟨a, ha, rfl⟩ := withNetworkScheme?_eq_some h
  rw [userInfo?, userInfo?, ha]
  rfl

/-- A port that is left out because it is implied is still the port. -/
theorem or_filter_implied (port implied : Option Nat) :
    (port.filter (implied != some ·)).or implied = port.or implied := by
  cases port with
  | none => rfl
  | some p =>
      rw [Option.filter_some]
      split
      · rfl
      · next himplied =>
          have himplied : implied = some p := by simpa using himplied
          rw [himplied]
          rfl

/-- **The port stays the same between schemes that imply the same port**, written or not. -/
theorem effectivePort?_withNetworkScheme? (h : u.withNetworkScheme? scheme = some v)
    (himplied : defaultPort? scheme = defaultPort? u.scheme) :
    v.effectivePort? = u.effectivePort? := by
  obtain ⟨a, ha, rfl⟩ := withNetworkScheme?_eq_some h
  rw [effectivePort?, effectivePort?, ha, ← himplied]
  exact or_filter_implied a.port (defaultPort? scheme)

/-! ## The id of a stream -/

/-- Adding the id changes nothing but the query, where it comes last. -/
theorem queryPairs_withResizeId (u : Url) (id : String) :
    (u.withResizeId id).queryPairs = u.queryPairs ++ [("resize_id", id)] :=
  queryPairs_appendQuery u _

/-- Whatever the query held, the id is the one that was added. -/
theorem resizeId?_withResizeId (u : Url) (id : String) :
    (u.withResizeId id).resizeId? = some id := by
  rw [resizeId?, queryPairs_withResizeId, List.reverse_append]
  rfl

/-! ## The request -/

/-- The secure scheme is for the secure stream alone. -/
theorem sideScheme_of_isStreamScheme (h : isStreamScheme scheme = true) :
    (sideScheme scheme = "https" ↔ scheme = "wss") ∧ (sideScheme scheme = "http" ↔ scheme = "ws") ∧
      defaultPort? (sideScheme scheme) = defaultPort? scheme := by
  rcases Bool.or_eq_true_iff.mp h with h | h <;> rw [beq_iff_eq.mp h] <;> decide

/-- What is asked of a host for a size. -/
def sizeRequest (v : Url) (id : String) (grid : Grid) : Url :=
  { v.withPath ["api", "resize"] with query := none }.appendQuery (resizeParameters id grid)

theorem queryPairs_sizeRequest (v : Url) (id : String) (grid : Grid) :
    (v.sizeRequest id grid).queryPairs = resizeParameters id grid := queryPairs_appendQuery _ _

/-- **A request goes to the host of the URL it is derived from**, for the same user and by the same
port, with a place and a query of its own: nothing that the URL asked is asked again. -/
theorem resizeUrl_of_sideScheme (h : u.withNetworkScheme? (sideScheme u.scheme) = some v)
    (himplied : defaultPort? (sideScheme u.scheme) = defaultPort? u.scheme) (id : String)
    (grid : Grid) :
    ∃ r, u.resizeUrl id grid = .ok r ∧ r.scheme = sideScheme u.scheme ∧ r.host? = u.host? ∧
      r.userInfo? = u.userInfo? ∧ r.effectivePort? = u.effectivePort? ∧
      r.path.render = "/api/resize" ∧
      r.queryPairs =
        [("resize_id", id), ("width", toString grid.cols), ("height", toString grid.rows)] ∧
      r.resizeId? = some id := by
  have hhost := host?_withNetworkScheme? h
  have huser := userInfo?_withNetworkScheme? h
  have hport := effectivePort?_withNetworkScheme? h himplied
  refine ⟨v.sizeRequest id grid, ?_, ?_, hhost, huser, hport, rfl, queryPairs_sizeRequest v id grid,
    ?_⟩
  · rw [resizeUrl, h]
    rfl
  · obtain ⟨a, -, rfl⟩ := withNetworkScheme?_eq_some h
    rfl
  · rw [resizeId?, queryPairs_sizeRequest]
    rfl

end Url

namespace Endpoint

/-- The base of an endpoint has a host, and the scheme that was asked for. -/
theorem withNetworkScheme?_base {scheme host : String} {e : Endpoint}
    (h : ofHost scheme host = .ok e) (side : String) :
    e.base.scheme = scheme ∧ ∃ u, e.base.withNetworkScheme? side = some u := by
  obtain ⟨hscheme, name, port, -, -, hbase⟩ := HostText.base_of_ofHost h
  have hspecial : (SchemeKind.of scheme).isSpecial = true := by
    rw [HostText.kind_of_isStreamScheme hscheme]
    rfl
  rw [hbase]
  refine ⟨rfl, ?_⟩
  simp [Url.withNetworkScheme?, HostText.url, Url.kind, hspecial]

/-- **A size is asked for where the stream is, and for the stream.** For every endpoint that is
accepted, in any context, every id and every grid, the request has an address: its scheme is `https`
exactly if the streams are over `wss`, and `http` exactly if they are over `ws`; host, user and port
are those of the endpoint; the path is `/api/resize`; and the query decodes to the id and the two
sizes, and to nothing else. Adding the id to the address of any stream adds one pair behind those in
its query and changes nothing else. So the id that is read from the address of a stream is the one
that is read from the request. -/
theorem sideChannel {scheme host : String} {e : Endpoint} (h : ofHost scheme host = .ok e)
    (context : Option String) (id : String) (grid : Grid) :
    (∃ u, (e.withContext context).resizeUrl id grid = .ok u ∧
      (u.scheme = "https" ↔ scheme = "wss") ∧ (u.scheme = "http" ↔ scheme = "ws") ∧
      u.host? = e.base.host? ∧ u.userInfo? = e.base.userInfo? ∧
      u.effectivePort? = e.base.effectivePort? ∧ u.path.render = "/api/resize" ∧
      u.queryPairs =
        [("resize_id", id), ("width", toString grid.cols), ("height", toString grid.rows)] ∧
      ∀ stream : Url, (stream.withResizeId id).resizeId? = u.resizeId?) ∧
    ∀ stream : Url,
      (stream.withResizeId id).queryPairs = stream.queryPairs ++ [("resize_id", id)] ∧
      { stream.withResizeId id with query := stream.query } = stream ∧
      (stream.withResizeId id).resizeId? = some id := by
  obtain ⟨hscheme, -⟩ := HostText.base_of_ofHost h
  obtain ⟨hbase, v, hv⟩ := withNetworkScheme?_base h (sideScheme scheme)
  obtain ⟨hsecure, hplain, himplied⟩ := Url.sideScheme_of_isStreamScheme hscheme
  obtain ⟨u, hu, hside, hhost, huser, hport, hpath, hpairs, hid⟩ :=
    Url.resizeUrl_of_sideScheme (u := e.base) (by rwa [hbase]) (by rwa [hbase]) id grid
  rw [hbase] at hside
  rw [← hside] at hsecure hplain
  refine ⟨⟨u, hu, hsecure, hplain, hhost, huser, hport, hpath, hpairs, fun stream => ?_⟩,
    fun stream => ⟨?_, rfl, ?_⟩⟩
  · rw [Url.resizeId?_withResizeId, hid]
  · exact Url.queryPairs_withResizeId stream id
  · exact Url.resizeId?_withResizeId stream id

/-- The port 80 of a secure host is one that its side channel has to name. -/
theorem secure_host_sideChannel :
    ∃ e u, ofHost "wss" "u@[::1]:80?x=1" = .ok e ∧ e.resizeUrl "r 1" ⟨80, 24⟩ = .ok u ∧
      u.scheme = "https" ∧ u.effectivePort? = some 80 ∧
      u.queryPairs = [("resize_id", "r 1"), ("width", "80"), ("height", "24")] := by
  have haccepted : (ofHost "wss" "u@[::1]:80?x=1").toOption.bind (·.base.effectivePort?) =
      some 80 := by decide +kernel
  cases h : ofHost "wss" "u@[::1]:80?x=1" with
  | error e =>
      rw [h] at haccepted
      cases haccepted
  | ok e =>
      rw [h] at haccepted
      obtain ⟨⟨u, hu, hsecure, -, -, -, hport, -, hpairs, -⟩, -⟩ :=
        sideChannel h none "r 1" ⟨80, 24⟩
      exact ⟨e, u, rfl, hu, hsecure.mpr rfl, hport.trans haccepted, hpairs⟩

end Endpoint

end Switchboard
