import Mathlib.Data.List.DropRight
import ApiGateway.HealthCheck.Probe
import ApiGateway.Proxy.Rewrite

/-!
# The base URL of an instance

An instance's address is used in two ways. `NewLoadBalancedProxy` parses it and
`Director` takes `Scheme` and `Host` from the result; `probeLoop` appends the health path
to its text. `Pieces` names what stands in the text, so that both can be compared with
the URL the address is the base of.
-/

namespace ApiGateway.Proxy

open Lib Gateway HealthCheck

/-- `strings.Cut`, at one byte -/
def cut (sep : UInt8) (s : Bytes) : Bytes × Bytes :=
  (s.takeWhile (· != sep), (s.dropWhile (· != sep)).drop 1)

def isLetter (c : UInt8) : Bool := (97 ≤ c && c ≤ 122) || (65 ≤ c && c ≤ 90)

/-- The bytes a scheme has behind its first letter. -/
def isSchemeRest (c : UInt8) : Bool := (48 ≤ c && c ≤ 57) || (bytes "+-.").contains c

/-- The loop of `getScheme`, which has seen `seen` and not returned. -/
def getSchemeFrom (seen : Bytes) : Bytes → Option (Bytes × Bytes)
  | [] => some ([], seen)
  | c :: rest =>
    if isLetter c then getSchemeFrom (seen ++ [c]) rest
    else if isSchemeRest c then
      -- such a byte may not come first
      if seen = [] then some ([], c :: rest) else getSchemeFrom (seen ++ [c]) rest
    else if c = 58 then
      -- "missing protocol scheme"
      if seen = [] then none else some (seen, rest)
    else some ([], seen ++ c :: rest)

/-- `getScheme` -/
def getScheme (rawURL : Bytes) : Option (Bytes × Bytes) := getSchemeFrom [] rawURL

/-- `strings.ToLower`, on a scheme -/
def toLower (s : Bytes) : Bytes := s.map (fun c => if 65 ≤ c ∧ c ≤ 90 then c + 32 else c)

/-- `stringContainsCTLByte` -/
def containsCTL (s : Bytes) : Bool := s.any (fun c => c < 32 || c == 127)

section

variable (parseAuthority : Bytes → Option Bytes)

/-- `parse`, not of a request. `parseAuthority` is the host that is read from an
authority, where it is well formed. -/
def parseReference (rawURL : Bytes) : Option URL :=
  if containsCTL rawURL then none
  else if rawURL = bytes "*" then some ⟨[], [], bytes "*", []⟩
  else
    match getScheme rawURL with
    | none => none
    | some (name, behind) =>
      let scheme := toLower name
      let rest := (cut 63 behind).1
      if ¬ (bytes "/").isPrefixOf rest then
        -- a rootless path is kept as `Opaque`, with no host
        if scheme ≠ [] then some ⟨scheme, [], [], []⟩
        -- "first path segment in URL cannot contain colon"
        else if (cut slash rest).1.contains 58 then none
        else (⟨scheme, [], [], []⟩ : URL).setPath rest
      else if (scheme ≠ [] ∨ ¬ (bytes "///").isPrefixOf rest) ∧ (bytes "//").isPrefixOf rest then
        let authority := (rest.drop 2).takeWhile (· != slash)
        match parseAuthority authority with
        | none => none
        | some host =>
          (⟨scheme, host, [], []⟩ : URL).setPath ((rest.drop 2).dropWhile (· != slash))
      else (⟨scheme, [], [], []⟩ : URL).setPath rest

/-- `Parse` -/
def parse (rawURL : Bytes) : Option URL :=
  match parseReference parseAuthority (cut 35 rawURL).1 with
  | none => none
  | some url => if (unescape (cut 35 rawURL).2).isSome then some url else none

end

/-- An absolute URL of a web server. -/
def URL.AbsoluteHttp (u : URL) : Prop :=
  (u.scheme = bytes "http" ∨ u.scheme = bytes "https") ∧ u.host ≠ []

/-! ## The text of an address -/

/-- What an absolute URL has in its text, in front of a query or a fragment. -/
structure Pieces where
  scheme : Bytes
  authority : Bytes
  path : Bytes
  deriving DecidableEq, Repr

def pieces (addr : Bytes) : Pieces :=
  match getScheme (cut 35 addr).1 with
  | none => ⟨[], [], []⟩
  | some (scheme, behind) =>
    let rest := (cut 63 behind).1.drop 2
    ⟨scheme, rest.takeWhile (· != slash), rest.dropWhile (· != slash)⟩

/-- Scheme and authority, as they are written. -/
def Pieces.origin (t : Pieces) : Bytes := t.scheme ++ bytes "://" ++ t.authority

/-- One path behind the other, with one slash where they meet. -/
def joinSlash (base rest : Bytes) : Bytes :=
  base.rdropWhile (· == slash) ++ slash :: rest.dropWhile (· == slash)

theorem cut_append (sep : UInt8) (s : Bytes) :
    ∃ tail, s = (cut sep s).1 ++ tail ∧ (tail = [] ∨ tail.head? = some sep) := by
  refine ⟨s.dropWhile (· != sep), List.takeWhile_append_dropWhile.symm, ?_⟩
  cases h : s.dropWhile (· != sep) with
  | nil => exact .inl rfl
  | cons c rest =>
      right
      have hne : s.dropWhile (· != sep) ≠ [] := by
        rw [h]
        exact List.cons_ne_nil c rest
      have hc := List.head_dropWhile_not (· != sep) hne
      simp only [h, List.head_cons, bne_eq_false_iff_eq] at hc
      exact congrArg some hc

/-- A scheme that was found stands in front of its colon. -/
theorem getSchemeFrom_eq {seen raw name behind : Bytes}
    (h : getSchemeFrom seen raw = some (name, behind)) (hne : name ≠ []) :
    seen ++ raw = name ++ 58 :: behind := by
  induction raw generalizing seen with
  | nil =>
      obtain ⟨rfl, _⟩ := Prod.mk.inj (Option.some.inj h)
      exact absurd rfl hne
  | cons c rest ih =>
      have hnext : getSchemeFrom (seen ++ [c]) rest = some (name, behind) →
          seen ++ c :: rest = name ++ 58 :: behind := by
        intro hrest
        rw [← ih hrest, List.append_assoc]
        rfl
      rw [getSchemeFrom] at h
      split at h
      · exact hnext h
      · split at h
        · split at h
          · obtain ⟨rfl, _⟩ := Prod.mk.inj (Option.some.inj h)
            exact absurd rfl hne
          · exact hnext h
        · split at h
          · next hcolon =>
              split at h
              · cases h
              · obtain ⟨rfl, rfl⟩ := Prod.mk.inj (Option.some.inj h)
                rw [hcolon]
          · obtain ⟨rfl, _⟩ := Prod.mk.inj (Option.some.inj h)
            exact absurd rfl hne

theorem setPath_host {u v : URL} {p : Bytes} (h : u.setPath p = some v) :
    v.scheme = u.scheme ∧ v.host = u.host := by
  unfold URL.setPath at h
  cases hp : unescape p with
  | none =>
      rw [hp] at h
      cases h
  | some path =>
      rw [hp] at h
      obtain rfl := Option.some.inj h
      exact ⟨rfl, rfl⟩

section

variable {parseAuthority : Bytes → Option Bytes}

/-- A reference that has a host was read through its authority. -/
theorem parseReference_host {raw : Bytes} {u : URL}
    (h : parseReference parseAuthority raw = some u) (hscheme : u.scheme ≠ [])
    (hhost : u.host ≠ []) :
    ∃ name behind authority path, getScheme raw = some (name, behind) ∧ name ≠ [] ∧
      (cut 63 behind).1 = bytes "//" ++ authority ++ path ∧
      authority = ((cut 63 behind).1.drop 2).takeWhile (· != slash) ∧
      path = ((cut 63 behind).1.drop 2).dropWhile (· != slash) ∧
      toLower name = u.scheme ∧ parseAuthority authority = some u.host := by
  unfold parseReference at h
  split at h
  · cases h
  · split at h
    · obtain rfl := Option.some.inj h
      exact absurd rfl hhost
    · split at h
      · cases h
      · next name behind hget =>
          dsimp only at h
          split at h
          · -- without a slash in front, every result has an empty host
            split at h
            · obtain rfl := Option.some.inj h
              exact absurd rfl hhost
            · split at h
              · cases h
              · exact absurd (setPath_host h).2 hhost
          · split at h
            · -- two slashes: the only branch that reads an authority
              next hslashes =>
                split at h
                · cases h
                · next host hauth =>
                    obtain ⟨hs, hh⟩ := setPath_host h
                    obtain ⟨tail, htail⟩ := List.isPrefixOf_iff_prefix.mp hslashes.2
                    refine ⟨name, behind, _, _, hget, ?_, ?_, rfl, rfl, hs.symm, ?_⟩
                    · intro hname
                      rw [hs, hname] at hscheme
                      exact hscheme rfl
                    · rw [List.append_assoc, List.takeWhile_append_dropWhile, ← htail]
                      rfl
                    · rw [hh]
                      exact hauth
            · exact absurd (setPath_host h).2 hhost

/-- An address that is an absolute URL is its pieces, and a query or a fragment. -/
theorem parse_pieces {addr : Bytes} {u : URL} (h : parse parseAuthority addr = some u)
    (habs : u.AbsoluteHttp) :
    toLower (pieces addr).scheme = u.scheme ∧
      parseAuthority (pieces addr).authority = some u.host ∧
      ∃ tail, addr = (pieces addr).origin ++ ((pieces addr).path ++ tail) ∧
        tail.head? ≠ some slash := by
  have href : parseReference parseAuthority (cut 35 addr).1 = some u := by
    unfold parse at h
    split at h
    · cases h
    · next url hurl =>
        split at h
        · rw [hurl, Option.some.inj h]
        · cases h
  have hscheme : u.scheme ≠ [] := by
    rcases habs.1 with hs | hs
    · rw [hs]; decide
    · rw [hs]; decide
  obtain ⟨name, behind, authority, path, hget, hname, hcut, hauth, hpath, hlower, hhost⟩ :=
    parseReference_host href hscheme habs.2
  have hpieces : pieces addr = ⟨name, authority, path⟩ := by
    unfold pieces
    rw [hget, hauth, hpath]
  rw [hpieces]
  refine ⟨hlower, hhost, ?_⟩
  obtain ⟨fragment, haddr, hfragment⟩ := cut_append 35 addr
  obtain ⟨query, hbehind, hquery⟩ := cut_append 63 behind
  refine ⟨query ++ fragment, ?_, ?_⟩
  · -- the cuts are put back, the innermost first
    have hraw : (cut 35 addr).1 = name ++ 58 :: behind := getSchemeFrom_eq hget hname
    calc addr = (cut 35 addr).1 ++ fragment := haddr
      _ = name ++ 58 :: ((cut 63 behind).1 ++ query) ++ fragment := by rw [hraw, ← hbehind]
      _ = name ++ 58 :: (bytes "//" ++ authority ++ path ++ query) ++ fragment := by rw [hcut]
      _ = name ++ bytes "://" ++ authority ++ (path ++ (query ++ fragment)) := by
          show name ++ 58 :: (47 :: 47 :: authority ++ path ++ query) ++ fragment =
            name ++ [58, 47, 47] ++ authority ++ (path ++ (query ++ fragment))
          simp only [List.append_assoc, List.cons_append, List.nil_append]
  · -- what follows the path starts with a question mark or a number sign, if at all
    rcases hquery with rfl | hquery
    · rcases hfragment with rfl | hfragment
      · exact nofun
      · rw [List.nil_append, hfragment]
        decide
    · rw [List.head?_append, hquery]
      show some (63 : UInt8) ≠ some slash
      decide

end

/-! ## Joining at one slash -/

theorem bytes_append (s t : String) : bytes (s ++ t) = bytes s ++ bytes t := by
  unfold bytes
  rw [String.toList_append, List.flatMap_append]

/-- An encoded path starts with a slash only where the path does. -/
theorem escapePath_noSlash {c : UInt8} (h : c ≠ slash) (s : Bytes) :
    (escapePath (c :: s)).dropWhile (· == slash) = escapePath (c :: s) := by
  unfold escapePath
  rw [escape]
  split
  · rfl
  · rw [List.dropWhile_cons_of_neg (by simpa using h)]

/-- A rewritten path joins an empty base as it is, and no other. -/
theorem joinSlash_servicePrefix (s : Service) (base rest : Bytes) :
    escapePath (trimPrefix (bytes s.pathPrefix) (bytes "/api") ++ rest) =
        joinSlash base (escapePath (trimPrefix (bytes s.pathPrefix) (bytes "/api") ++ rest)) ↔
      base.rdropWhile (· == slash) = [] := by
  have hservice : ∃ c service, c ≠ slash ∧
      trimPrefix (bytes s.pathPrefix) (bytes "/api") = slash :: c :: service := by
    cases s with
    | user => exact ⟨117, bytes "sers", by decide⟩
    | order => exact ⟨111, bytes "rders", by decide⟩
    | product => exact ⟨112, bytes "roducts", by decide⟩
  obtain ⟨c, service, hc, htrim⟩ := hservice
  have hesc : escapePath (slash :: c :: (service ++ rest)) =
      slash :: escapePath (c :: (service ++ rest)) := by
    unfold escapePath
    rw [escape, if_neg (by decide)]
  rw [htrim, List.cons_append, List.cons_append, hesc, joinSlash,
    List.dropWhile_cons_of_pos (by decide), escapePath_noSlash hc]
  exact List.self_eq_append_left

/-- The slashes a path starts with. -/
def leadingSlashes (path : Bytes) : Bytes := path.takeWhile (· == slash)

/-- The address is its scheme and authority and the health path starts with one slash, or
it has that one slash at its end and the health path has none. -/
def MeetAtOneSlash (addr healthPath : Bytes) : Prop :=
  (addr = (pieces addr).origin ∧ leadingSlashes healthPath = bytes "/") ∨
    (addr = (pieces addr).origin ++ bytes "/" ∧ leadingSlashes healthPath = [])

/-- Over an empty base path, the text of the address and the health path are the joined
paths just when they meet at one slash. -/
theorem append_joinSlash_iff {base tail healthPath : Bytes}
    (hbase : base.rdropWhile (· == slash) = []) :
    base ++ tail ++ healthPath = joinSlash base healthPath ↔
      base ++ tail ++ leadingSlashes healthPath = bytes "/" := by
  have hsplit : leadingSlashes healthPath ++ healthPath.dropWhile (· == slash) = healthPath :=
    List.takeWhile_append_dropWhile
  rw [joinSlash, hbase]
  nth_rewrite 1 [← hsplit]
  rw [← List.append_assoc]
  show _ = bytes "/" ++ healthPath.dropWhile (· == slash) ↔ _
  exact List.append_left_inj _

theorem meetAtOneSlash_iff {addr tail : Bytes} (healthPath : Bytes)
    (haddr : addr = (pieces addr).origin ++ ((pieces addr).path ++ tail))
    (htail : tail.head? ≠ some slash) :
    MeetAtOneSlash addr healthPath ↔
      (pieces addr).path.rdropWhile (· == slash) = [] ∧
        (pieces addr).path ++ tail ++ leadingSlashes healthPath = bytes "/" := by
  refine ⟨?_, ?_⟩
  · rintro (⟨hall, hlead⟩ | ⟨hall, hlead⟩)
    · have hnil := List.append_right_eq_self.mp (haddr.symm.trans hall)
      rw [hnil, hlead, (List.append_eq_nil_iff.mp hnil).1]
      exact ⟨rfl, rfl⟩
    · have hone := List.append_cancel_left (haddr.symm.trans hall)
      rw [hone, hlead]
      rcases List.append_eq_singleton_iff.mp hone with ⟨_, hslash⟩ | ⟨hpath, _⟩
      · -- the one slash cannot be behind the path
        rw [hslash] at htail
        exact absurd rfl htail
      · rw [hpath]
        exact ⟨by decide, rfl⟩
  · rintro ⟨_, hone⟩
    rcases List.append_eq_singleton_iff.mp hone with ⟨hnil, hlead⟩ | ⟨hslash, hlead⟩
    · rw [hnil, List.append_nil] at haddr
      exact .inl ⟨haddr, hlead⟩
    · rw [hslash] at haddr
      exact .inr ⟨haddr, hlead⟩

/-! ## Both uses of an address -/

/-- Every request under a service's prefix goes to the scheme and the host of the address,
and to its path, followed by the service's own prefix and the rest of the request's. -/
def ForwardsToBase (parseAuthority : Bytes → Option Bytes) (addr : Bytes) (target : URL) : Prop :=
  ∀ (s : Service) (u : URL) (p : Bytes) (req : Request),
    u.setPath p = some req.url → Routed (bytes s.pathPrefix) req.url.path →
    let out := (director target (bytes s.pathPrefix) req).url
    out.scheme = toLower (pieces addr).scheme ∧
      some out.host = parseAuthority (pieces addr).authority ∧
      out.escapedPath = joinSlash (pieces addr).path
        (escapePath (trimPrefix (bytes s.pathPrefix) (bytes "/api") ++
          remainder (bytes s.pathPrefix) req.url.path))

/-- A probe goes to the scheme and authority of the address, and to its path, followed by
the health path. -/
def ProbesBase (addr healthPath url : Bytes) : Prop :=
  url = (pieces addr).origin ++ joinSlash (pieces addr).path healthPath

theorem forwardsToBase_iff {parseAuthority : Bytes → Option Bytes} {addr : Bytes} {target : URL}
    (h : parse parseAuthority addr = some target) (habs : target.AbsoluteHttp) :
    ForwardsToBase parseAuthority addr target ↔
      (pieces addr).path.rdropWhile (· == slash) = [] := by
  obtain ⟨hscheme, hhost, _⟩ := parse_pieces h habs
  have hpath : ∀ (s : Service) (u : URL) (p : Bytes) (req : Request),
      u.setPath p = some req.url → Routed (bytes s.pathPrefix) req.url.path →
      ((director target (bytes s.pathPrefix) req).url.escapedPath =
          joinSlash (pieces addr).path (escapePath (trimPrefix (bytes s.pathPrefix) (bytes "/api") ++
            remainder (bytes s.pathPrefix) req.url.path)) ↔
        (pieces addr).path.rdropWhile (· == slash) = []) := by
    intro s u p req hset hrouted
    rw [director_escapedPath target s hset hrouted, director_path]
    exact joinSlash_servicePrefix s _ _
  refine ⟨?_, ?_⟩
  · -- one request is enough to see that the path is lost
    intro hall
    have hset : (⟨[], [], [], []⟩ : URL).setPath (bytes "/api/users") =
        some (received "/api/users" "").url := by decide +kernel
    have hrouted : Routed (bytes Service.user.pathPrefix) (received "/api/users" "").url.path :=
      .inl rfl
    exact (hpath .user _ _ _ hset hrouted).mp (hall .user _ _ _ hset hrouted).2.2
  · intro hbase s u p req hset hrouted
    exact ⟨hscheme.symm, hhost.symm, (hpath s u p req hset hrouted).mpr hbase⟩

/-- Requests and probes of an instance both go to its base URL just when its address and
the health path meet at one slash. An address with a path of its own never does: requests
lose the path. -/
theorem same_base_iff (parseAuthority : Bytes → Option Bytes) (serviceName : String)
    (inst : Instance) (opts : HealthCheck.Options) (target : URL)
    (hparse : parse parseAuthority (bytes inst.addr) = some target)
    (habs : target.AbsoluteHttp) :
    (ForwardsToBase parseAuthority (bytes inst.addr) target ∧
        ProbesBase (bytes inst.addr) (bytes opts.path)
          (bytes (probeLoop serviceName inst opts).url)) ↔
      MeetAtOneSlash (bytes inst.addr) (bytes opts.path) := by
  obtain ⟨_, _, tail, haddr, htail⟩ := parse_pieces hparse habs
  rw [forwardsToBase_iff hparse habs, meetAtOneSlash_iff (bytes opts.path) haddr htail]
  refine and_congr_right ?_
  intro hbase
  rw [← append_joinSlash_iff hbase, ProbesBase]
  show bytes (inst.addr ++ opts.path) = _ ↔ _
  rw [bytes_append]
  nth_rewrite 1 [haddr]
  rw [List.append_assoc, List.append_right_inj]

/-- An instance with its breaker closed, and the checker's options. -/
def instanceAt (addr : String) : Instance := ⟨addr, CircuitBreaker.new ⟨5, 1⟩ 0, true⟩

def optionsFor (path : String) : HealthCheck.Options := ⟨1, 1, path⟩

/-- The default health path meets an address without a path. The authority is a plain
host here, which `parseAuthority` gives back as it is. -/
theorem same_base_bare :
    ForwardsToBase some (bytes "http://h:81") ⟨bytes "http", bytes "h:81", [], []⟩ ∧
      ProbesBase (bytes "http://h:81") (bytes "/health") (bytes "http://h:81/health") :=
  (same_base_iff some "user" (instanceAt "http://h:81") (optionsFor "/health")
    ⟨bytes "http", bytes "h:81", [], []⟩ (by decide +kernel) ⟨.inl rfl, by decide⟩).mpr
    (.inl (by decide +kernel))

/-- Of `http://h/base` the probe keeps the path, and a request does not. -/
theorem base_path_lost :
    parse some (bytes "http://h/base") =
        some ⟨bytes "http", bytes "h", bytes "/base", []⟩ ∧
      (probeLoop "user" (instanceAt "http://h/base") (optionsFor "/health")).url =
        "http://h/base/health" ∧
      (director ⟨bytes "http", bytes "h", bytes "/base", []⟩ (bytes "/api/users")
          (received "/api/users/123" "")).url.escapedPath = bytes "/users/123" ∧
      joinSlash (pieces (bytes "http://h/base")).path (bytes "/users/123") =
        bytes "/base/users/123" ∧
      ¬ (ForwardsToBase some (bytes "http://h/base")
          ⟨bytes "http", bytes "h", bytes "/base", []⟩ ∧
        ProbesBase (bytes "http://h/base") (bytes "/health")
          (bytes (probeLoop "user" (instanceAt "http://h/base") (optionsFor "/health")).url)) := by
  refine ⟨by decide +kernel, by decide +kernel, by decide +kernel, by decide +kernel, ?_⟩
  rintro ⟨hforward, _⟩
  have hset : (⟨[], [], [], []⟩ : URL).setPath (bytes "/api/users/123") =
      some (received "/api/users/123" "").url := by decide +kernel
  have hrouted : Routed (bytes Service.user.pathPrefix) (received "/api/users/123" "").url.path := by
    decide +kernel
  have hpath := (hforward .user _ _ _ hset hrouted).2.2
  exact absurd hpath (by decide +kernel)

end ApiGateway.Proxy
