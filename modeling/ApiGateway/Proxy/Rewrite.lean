import Mathlib.Data.List.Infix
import ApiGateway.Lib.Percent
import ApiGateway.Gateway.World

/-!
# The path rewrite

`Director` of `internal/proxy/proxy.go`, the same in `NewReverseProxy` and in
`NewLoadBalancedProxy`. A `URL` keeps its path twice: `Path` is decoded, and `RawPath` is
the text it was decoded from, where that is not the text `Path` would be encoded to.
`Director` sets `Path` and leaves `RawPath` alone, so `EscapedPath` finds that the two no
longer agree and encodes `Path` anew.

What a rewrite is to do is said on segments: those of the incoming path, less the `api`
at its front.
-/

namespace ApiGateway.Proxy

open Lib Gateway

abbrev Bytes := List UInt8

def bytes (s : String) : Bytes := s.toList.flatMap String.utf8EncodeChar

def slash : UInt8 := 47

def isAlnum (c : UInt8) : Bool :=
  (97 ≤ c && c ≤ 122) || (65 ≤ c && c ≤ 90) || (48 ≤ c && c ≤ 57)

/-- `shouldEscape`, in mode `encodePath` -/
def shouldEscape (c : UInt8) : Bool :=
  !(isAlnum c || (bytes "-_.~").contains c || (bytes "$&+,/:;=@").contains c)

/-- `validEncoded` -/
def validEncoded (s : Bytes) : Bool :=
  s.all (fun c => (bytes "!$&'()*+,;=:@[]%").contains c || !shouldEscape c)

/-- `escape`, in mode `encodePath` -/
def escapePath (s : Bytes) : Bytes := escape shouldEscape s

/-- `url.URL` -/
structure URL where
  scheme : Bytes
  host : Bytes
  path : Bytes
  rawPath : Bytes
  deriving DecidableEq, Repr

/-- `setPath` -/
def URL.setPath (u : URL) (p : Bytes) : Option URL := do
  let path ← unescape p
  return { u with path := path, rawPath := if p = escapePath path then [] else p }

/-- `EscapedPath` -/
def URL.escapedPath (u : URL) : Bytes :=
  if u.rawPath ≠ [] ∧ validEncoded u.rawPath ∧ unescape u.rawPath = some u.path then u.rawPath
  else if u.path = bytes "*" then bytes "*"
  else escapePath u.path

/-- `strings.TrimPrefix` -/
def trimPrefix (s start : Bytes) : Bytes :=
  if start.isPrefixOf s then s.drop start.length else s

/-- `http.Request` -/
structure Request where
  url : URL
  host : Bytes
  deriving DecidableEq, Repr

/-- `Director`, for a target and the prefix its handler is registered under. -/
def director (target : URL) (start : Bytes) (req : Request) : Request :=
  let servicePrefix := trimPrefix start (bytes "/api")
  let trimmed := trimPrefix req.url.path start
  { host := target.host
    url := { req.url with
      scheme := target.scheme
      host := target.host
      path := if trimmed = [] ∨ trimmed = bytes "/" then servicePrefix
        else servicePrefix ++ trimmed } }

/-- The text has an escape of a slash in it. -/
def ContainsEscapedSlash (s : Bytes) : Prop := bytes "%2F" <:+: s ∨ bytes "%2f" <:+: s

instance (s : Bytes) : Decidable (ContainsEscapedSlash s) := instDecidableOr

/-- The request's path is a route of the handler: the prefix, or the prefix, a slash and
anything. -/
def Routed (start path : Bytes) : Prop := path = start ∨ start ++ bytes "/" <+: path

instance (start path : Bytes) : Decidable (Routed start path) := instDecidableOr

/-- A service's segments, without a bare trailing slash. -/
def dropBare : List Bytes → List Bytes
  | [service, []] => [service]
  | segs => segs

/-- The segments a rewritten path is to have. -/
def dropApi : List Bytes → List Bytes
  | start :: first :: rest =>
    if start = [] ∧ first = bytes "api" then [] :: dropBare rest else start :: first :: rest
  | segs => segs

/-! ## The two encodings of a path -/

theorem shouldEscape_percent : shouldEscape percent = true := by decide

theorem shouldEscape_slash : shouldEscape slash = false := by decide

theorem percent_ne_slash : percent ≠ slash := by decide

theorem hexVal_slash : hexVal slash = none := by decide

theorem hexVal_two {c : UInt8} (h : hexVal c = some 2) : c = 50 := by
  unfold hexVal at h
  split at h
  · exact UInt8.toNat_inj.mp (by simp at h ⊢; omega)
  · split at h
    · simp at h; omega
    · split at h
      · simp at h; omega
      · cases h

theorem hexVal_fifteen {c : UInt8} (h : hexVal c = some 15) : c = 70 ∨ c = 102 := by
  unfold hexVal at h
  split at h
  · simp at h; omega
  · split at h
    · exact .inr (UInt8.toNat_inj.mp (by simp at h ⊢; omega))
    · split at h
      · exact .inl (UInt8.toNat_inj.mp (by simp at h ⊢; omega))
      · cases h

theorem escapedSep_slash (s : Bytes) : EscapedSep slash s ↔ ContainsEscapedSlash s := by
  refine ⟨?_, ?_⟩
  · rintro ⟨hi, lo, hb, hin⟩
    obtain ⟨m, n, hm, hn, heq⟩ := hexByte_some hb
    have hval : 16 * m + n = 47 := by
      have hmod := congrArg UInt8.toNat heq
      have hlt := hexVal_lt hm
      have hlt' := hexVal_lt hn
      rw [UInt8.toNat_ofNat'] at hmod
      change 47 = _ at hmod
      omega
    have hlt := hexVal_lt hn
    have hm2 : m = 2 := by omega
    have hn15 : n = 15 := by omega
    subst hm2 hn15
    obtain rfl := hexVal_two hm
    rcases hexVal_fifteen hn with rfl | rfl
    · exact .inl hin
    · exact .inr hin
  · rintro (hin | hin)
    · exact ⟨50, 70, rfl, hin⟩
    · exact ⟨50, 102, rfl, hin⟩

/-- Both texts a URL has for its path decode to it. -/
theorem decodes_escapedPath (u : URL) : Decodes u.escapedPath u.path := by
  unfold URL.escapedPath
  split
  · next h => exact decodes_iff.mpr h.2.2
  · split
    · next h =>
        rw [h]
        exact decodes_iff.mpr rfl
    · exact decodes_escape shouldEscape_percent u.path

theorem setPath_eq {u v : URL} {p : Bytes} (h : u.setPath p = some v) :
    Decodes p v.path ∧ (v.rawPath = [] ∨ unescape v.rawPath = some v.path) := by
  unfold URL.setPath at h
  cases hp : unescape p with
  | none =>
      rw [hp] at h
      cases h
  | some path =>
      rw [hp] at h
      obtain rfl := Option.some.inj h
      refine ⟨decodes_iff.mpr hp, ?_⟩
      by_cases hesc : p = escapePath path
      · exact .inl (if_pos hesc)
      · right
        show unescape (if p = escapePath path then [] else p) = some path
        rw [if_neg hesc, hp]

/-! ## What the rewrite does -/

theorem trimPrefix_append (start rest : Bytes) : trimPrefix (start ++ rest) start = rest := by
  unfold trimPrefix
  rw [if_pos (List.isPrefixOf_iff_prefix.mpr (List.prefix_append start rest))]
  exact List.drop_left

/-- The prefix of a service, in its two segments. -/
theorem pathPrefix_eq (s : Service) : ∃ service : Bytes, slash ∉ service ∧
    bytes s.pathPrefix = slash :: (bytes "api" ++ slash :: service) ∧
    trimPrefix (bytes s.pathPrefix) (bytes "/api") = slash :: service := by
  cases s with
  | user => exact ⟨bytes "users", by decide⟩
  | order => exact ⟨bytes "orders", by decide⟩
  | product => exact ⟨bytes "products", by decide⟩

theorem Routed.cases {start path : Bytes} (h : Routed start path) :
    path = start ∨ ∃ more, path = start ++ slash :: more := by
  rcases h with rfl | ⟨more, rfl⟩
  · exact .inl rfl
  · exact .inr ⟨more, by rw [List.append_assoc]; rfl⟩

/-- What follows the prefix in a routed path, less a bare slash. -/
def remainder (start path : Bytes) : Bytes :=
  if trimPrefix path start = bytes "/" then [] else trimPrefix path start

theorem director_path (target : URL) (start : Bytes) (req : Request) :
    (director target start req).url.path =
      trimPrefix start (bytes "/api") ++ remainder start req.url.path := by
  unfold director remainder
  dsimp only
  by_cases hnil : trimPrefix req.url.path start = []
  · rw [if_pos (.inl hnil), hnil, if_neg (by decide), List.append_nil]
  · by_cases hbare : trimPrefix req.url.path start = bytes "/"
    · rw [if_pos (.inr hbare), if_pos hbare, List.append_nil]
    · rw [if_neg (not_or.mpr ⟨hnil, hbare⟩), if_neg hbare]

/-- The rewritten path is shorter, so `RawPath` is not its encoding. -/
theorem director_shorter (target : URL) (s : Service) {req : Request}
    (h : Routed (bytes s.pathPrefix) req.url.path) :
    (director target (bytes s.pathPrefix) req).url.path ≠ req.url.path := by
  obtain ⟨service, _, hpre, htrim⟩ := pathPrefix_eq s
  intro heq
  have hlen := congrArg List.length heq
  rw [director_path, htrim, List.length_append, remainder] at hlen
  have hstart : (bytes s.pathPrefix).length = service.length + 5 := by
    rw [hpre, List.length_cons, List.length_append, List.length_cons]
    show 3 + (service.length + 1) + 1 = service.length + 5
    omega
  -- the prefix is five bytes longer than the service's name, its replacement one
  rcases h.cases with hpath | ⟨more, hpath⟩
  · have hnil := trimPrefix_append (bytes s.pathPrefix) []
    rw [List.append_nil] at hnil
    rw [hpath, hnil, if_neg (by decide), hstart] at hlen
    simp only [List.length_cons, List.length_nil] at hlen
    omega
  · rw [hpath, trimPrefix_append, List.length_append, hstart] at hlen
    split at hlen
    · simp only [List.length_cons, List.length_nil] at hlen
      omega
    · simp only [List.length_cons] at hlen
      omega

/-- The outgoing path is always encoded anew. -/
theorem director_escapedPath (target : URL) (s : Service) {u : URL} {p : Bytes} {req : Request}
    (hset : u.setPath p = some req.url) (h : Routed (bytes s.pathPrefix) req.url.path) :
    (director target (bytes s.pathPrefix) req).url.escapedPath =
      escapePath (director target (bytes s.pathPrefix) req).url.path := by
  obtain ⟨service, _, _, htrim⟩ := pathPrefix_eq s
  have hraw : (director target (bytes s.pathPrefix) req).url.rawPath = req.url.rawPath := rfl
  have hstar : (director target (bytes s.pathPrefix) req).url.path ≠ bytes "*" := by
    rw [director_path, htrim]
    intro heq
    exact absurd (List.cons.inj heq).1 (by decide)
  -- an old `RawPath` still decodes to the old path
  rw [URL.escapedPath, if_neg ?_, if_neg hstar]
  rintro ⟨hne, _, hdec⟩
  rw [hraw] at hne hdec
  rcases (setPath_eq hset).2 with hnil | hpath
  · exact hne hnil
  · exact director_shorter target s h (Option.some.inj (hdec.symm.trans hpath))

/-- Behind an `api` segment, the rewrite drops what it is to drop. -/
theorem dropBare_splitOn {service more : Bytes} (h : slash ∉ service) :
    dropBare ((service ++ slash :: more).splitOn slash) =
      (service ++ (if slash :: more = bytes "/" then [] else slash :: more)).splitOn slash := by
  rw [List.splitOn_append_cons_self_of_not_mem h]
  by_cases hmore : more = []
  · subst hmore
    rw [if_pos (by decide), List.append_nil, List.splitOn_eq_singleton h]
    rfl
  · have hbare : slash :: more ≠ bytes "/" := fun heq => hmore (List.cons.inj heq).2
    have hsplit : more.splitOn slash ≠ [[]] := by
      intro heq
      apply hmore
      have hjoin : [slash].intercalate (more.splitOn slash) = more :=
        List.intercalate_splitOn slash
      rw [heq] at hjoin
      exact hjoin.symm
    rw [if_neg hbare, List.splitOn_append_cons_self_of_not_mem h]
    unfold dropBare
    split
    · next heq => exact absurd (List.cons.inj heq).2 hsplit
    · rfl

theorem dropApi_api (rest : List Bytes) :
    dropApi ([] :: bytes "api" :: rest) = [] :: dropBare rest := by
  rw [dropApi]
  exact if_pos ⟨rfl, rfl⟩

/-- Splitting the decoded paths, the rewrite only drops segments. -/
theorem splitOn_director (target : URL) (s : Service) {req : Request}
    (h : Routed (bytes s.pathPrefix) req.url.path) :
    (director target (bytes s.pathPrefix) req).url.path.splitOn slash =
      dropApi (req.url.path.splitOn slash) := by
  obtain ⟨service, hservice, hpre, htrim⟩ := pathPrefix_eq s
  have hin : ∀ rest : Bytes, dropApi ((bytes s.pathPrefix ++ rest).splitOn slash) =
      [] :: dropBare ((service ++ rest).splitOn slash) := by
    intro rest
    rw [hpre, List.cons_append, List.append_assoc, List.cons_append, splitOn_sep,
      List.splitOn_append_cons_self_of_not_mem (by decide : slash ∉ bytes "api"), dropApi_api]
  rw [director_path, htrim, List.cons_append, splitOn_sep, remainder]
  rcases h.cases with hpath | ⟨more, hpath⟩
  · have hrest := hin []
    have hnil := trimPrefix_append (bytes s.pathPrefix) []
    rw [List.append_nil] at hrest hnil
    rw [hpath, hnil, if_neg (by decide), hrest, List.append_nil,
      List.splitOn_eq_singleton hservice]
    rfl
  · rw [hpath, trimPrefix_append, hin, dropBare_splitOn hservice]

/-- Only pieces without a slash in them are dropped. -/
theorem mem_dropApi {pieces : List Bytes} {piece : Bytes} (h : piece ∈ pieces)
    (hin : slash ∈ piece) : piece ∈ dropApi pieces := by
  have hbare : ∀ rest : List Bytes, piece ∈ rest → piece ∈ dropBare rest := by
    intro rest hrest
    unfold dropBare
    split
    · rcases List.mem_cons.mp hrest with rfl | hlast
      · exact List.mem_singleton_self _
      · rw [List.mem_singleton.mp hlast] at hin
        exact absurd hin List.not_mem_nil
    · exact hrest
  unfold dropApi
  split
  · next start first rest =>
      split
      · next hapi =>
          obtain ⟨rfl, rfl⟩ := hapi
          rcases List.mem_cons.mp h with rfl | h
          · exact List.mem_cons_self
          · rcases List.mem_cons.mp h with rfl | h
            · exact absurd hin (by decide)
            · exact List.mem_cons_of_mem _ (hbare rest h)
      · exact h
  · exact h

/-- The rewrite of a path, seen from either text of it. -/
theorem segments_director (target : URL) (s : Service) {u : URL} {p text : Bytes} {req : Request}
    (hset : u.setPath p = some req.url) (h : Routed (bytes s.pathPrefix) req.url.path)
    (hdec : Decodes text req.url.path) :
    segments slash (director target (bytes s.pathPrefix) req).url.escapedPath =
      (segments slash text).map dropApi ↔ ¬ ContainsEscapedSlash text := by
  have hout : segments slash (director target (bytes s.pathPrefix) req).url.escapedPath =
      some (dropApi (req.url.path.splitOn slash)) := by
    rw [director_escapedPath target s hset h, ← splitOn_director target s h]
    exact segments_eq_splitOn percent_ne_slash hexVal_slash
      (decodes_escape shouldEscape_percent _)
      (not_escapedSep_escape shouldEscape_percent shouldEscape_slash _)
  rw [hout]
  refine ⟨?_, ?_⟩
  · -- a slash inside an incoming segment is in no outgoing one
    intro heq hesc
    obtain ⟨pieces, hpieces, hdrop⟩ := Option.map_eq_some_iff.mp heq.symm
    obtain ⟨piece, hmem, hin⟩ := exists_mem_of_escapedSep percent_ne_slash hexVal_slash hdec
      ((escapedSep_slash text).mpr hesc) hpieces
    have hmem' := mem_dropApi hmem hin
    rw [hdrop, ← splitOn_director target s h] at hmem'
    exact not_mem_of_mem_splitOn hmem' hin
  · intro hno
    rw [segments_eq_splitOn percent_ne_slash hexVal_slash hdec
      (fun hesc => hno ((escapedSep_slash text).mp hesc))]
    rfl

/-- The rewritten path has the segments of the incoming one, less `api`, just when the
incoming one has no escaped slash. This holds for the path as it was sent and as
`EscapedPath` gives it. -/
theorem director_segments_iff (target : URL) (s : Service) (u : URL) (p : Bytes) (req : Request)
    (hset : u.setPath p = some req.url) (hrouted : Routed (bytes s.pathPrefix) req.url.path) :
    (segments slash (director target (bytes s.pathPrefix) req).url.escapedPath =
        (segments slash p).map dropApi ↔ ¬ ContainsEscapedSlash p) ∧
      (segments slash (director target (bytes s.pathPrefix) req).url.escapedPath =
        (segments slash req.url.escapedPath).map dropApi ↔
          ¬ ContainsEscapedSlash req.url.escapedPath) :=
  ⟨segments_director target s hset hrouted (setPath_eq hset).1,
    segments_director target s hset hrouted (decodes_escapedPath req.url)⟩

/-- A request as the server has read it, and the target it goes to. -/
def received (path rawPath : String) : Request where
  url := ⟨[], [], bytes path, bytes rawPath⟩
  host := bytes "gateway"

def backend : URL := ⟨bytes "http", bytes "user-service:8081", [], []⟩

/-- Escapes of other bytes come through. -/
theorem director_segments_space :
    segments slash (director backend (bytes "/api/users")
        (received "/api/users/a b" "")).url.escapedPath =
      (segments slash (bytes "/api/users/a%20b")).map dropApi :=
  (director_segments_iff backend .user ⟨[], [], [], []⟩ (bytes "/api/users/a%20b")
    (received "/api/users/a b" "") (by decide +kernel) (by decide +kernel)).1.mpr
    (by decide +kernel)

/-- A segment `a/b` becomes the two segments `a` and `b`. -/
theorem director_splits_segment :
    (⟨[], [], [], []⟩ : URL).setPath (bytes "/api/users/a%2Fb") =
        some (received "/api/users/a/b" "/api/users/a%2Fb").url ∧
      Routed (bytes Service.user.pathPrefix) (bytes "/api/users/a/b") ∧
      (received "/api/users/a/b" "/api/users/a%2Fb").url.escapedPath =
        bytes "/api/users/a%2Fb" ∧
      (segments slash (bytes "/api/users/a%2Fb")).map dropApi =
        some [[], bytes "users", bytes "a/b"] ∧
      segments slash (director backend (bytes Service.user.pathPrefix)
          (received "/api/users/a/b" "/api/users/a%2Fb")).url.escapedPath =
        some [[], bytes "users", bytes "a", bytes "b"] ∧
      segments slash (director backend (bytes Service.user.pathPrefix)
          (received "/api/users/a/b" "/api/users/a%2Fb")).url.escapedPath ≠
        (segments slash (bytes "/api/users/a%2Fb")).map dropApi := by
  decide +kernel

end ApiGateway.Proxy
