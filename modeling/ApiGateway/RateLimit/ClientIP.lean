import ApiGateway.RateLimit.Window

/-!
# Who the limiter takes a client for

`internal/middleware/ratelimit.go` keys the limiter by `c.ClientIP()`, and
`internal/router/router.go` builds its engine without `SetTrustedProxies`. The engine
then trusts every peer, and believes the address that the peer writes into the
forwarding headers (`clientIP_newEngine`).

So a peer is limited as one client exactly as long as all header values it sends
resolve to one address. The parser of addresses is a parameter.
-/

namespace ApiGateway.RateLimit

open CircuitBreaker (second)
open Lib

/-- `unicode.IsSpace` -/
def isSpace (c : Char) : Bool :=
  c.toNat ∈ [0x09, 0x0a, 0x0b, 0x0c, 0x0d, 0x20, 0x85, 0xa0, 0x1680, 0x2000, 0x2001, 0x2002,
    0x2003, 0x2004, 0x2005, 0x2006, 0x2007, 0x2008, 0x2009, 0x200a, 0x2028, 0x2029, 0x202f,
    0x205f, 0x3000]

/-- `strings.TrimSpace` -/
def trimSpace (s : List Char) : List Char :=
  ((s.dropWhile isSpace).reverse.dropWhile isSpace).reverse

/-- The entries of a header, trimmed. -/
def items (header : String) : List String :=
  (header.toList.splitOn ',').map (fun s => String.ofList (trimSpace s))

/-- The first value of each header of a request, empty when it is absent. -/
abbrev Header := String → String

/-- What `ClientIP` consults of the engine. -/
structure Engine where
  /-- `net.ParseIP`, with the address written back as text. -/
  parseIP : String → Option String
  isTrustedProxy : String → Bool
  remoteIPHeaders : List String

namespace Engine

/-- The loop of `validateHeader`: the entries come right to left. -/
def scan (e : Engine) : List String → Option String
  | [] => none
  | ipStr :: rest =>
      match e.parseIP ipStr with
      | none => none
      | some ip => if rest = [] ∨ e.isTrustedProxy ip = false then some ipStr else e.scan rest

def validateHeader (e : Engine) (header : String) : Option String :=
  if header = "" then none else e.scan (items header).reverse

/-- `ClientIP` of a request from `peer`. -/
def clientIP (e : Engine) (peer : String) (h : Header) : String :=
  match e.parseIP peer with
  | none => ""
  | some remoteIP =>
      if e.isTrustedProxy remoteIP then
        (e.remoteIPHeaders.findSome? (fun name => e.validateHeader (h name))).getD remoteIP
      else remoteIP

end Engine

/-- The engine `router.New` builds: every proxy is trusted. -/
def newEngine (parseIP : String → Option String) : Engine where
  parseIP := parseIP
  isTrustedProxy := fun _ => true
  remoteIPHeaders := ["X-Forwarded-For", "X-Real-IP"]

/-! ## The address a peer is believed to forward -/

/-- The leftmost entry of a header all of whose entries are addresses. -/
def leftmost (parseIP : String → Option String) (header : String) : Option String :=
  if header ≠ "" ∧ (items header).all (fun s => (parseIP s).isSome) then (items header).head?
  else none

/-- The leftmost `X-Forwarded-For` entry, else the leftmost `X-Real-IP` entry, else the peer. -/
def believed (parseIP : String → Option String) (peer : String) (h : Header) : String :=
  match parseIP peer with
  | none => ""
  | some remoteIP =>
      ((leftmost parseIP (h "X-Forwarded-For")).or (leftmost parseIP (h "X-Real-IP"))).getD remoteIP

/-- With every proxy trusted the scan runs through to the leftmost entry. -/
theorem scan_newEngine (parseIP : String → Option String) (l : List String) :
    (newEngine parseIP).scan l
      = if l.all (fun s => (parseIP s).isSome) then l.getLast? else none := by
  induction l with
  | nil => simp [Engine.scan]
  | cons s rest ih =>
      unfold Engine.scan
      have hparse : (newEngine parseIP).parseIP s = parseIP s := rfl
      rw [hparse]
      cases hs : parseIP s with
      | none => simp [hs]
      | some ip =>
          cases rest with
          | nil => simp [hs]
          | cons s' rest' =>
              have htrust : (newEngine parseIP).isTrustedProxy ip = true := rfl
              rw [List.getLast?_cons_cons, List.all_cons, hs]
              simp only [htrust, reduceCtorEq, Bool.true_eq_false, or_self, if_false, ih,
                Option.isSome_some, Bool.true_and]

theorem validateHeader_newEngine (parseIP : String → Option String) (header : String) :
    (newEngine parseIP).validateHeader header = leftmost parseIP header := by
  unfold Engine.validateHeader leftmost
  rw [scan_newEngine, List.all_reverse, List.getLast?_reverse]
  by_cases h : header = ""
  · rw [if_pos h, if_neg (fun h' => h'.1 h)]
  · rw [if_neg h]
    simp only [ne_eq, h, not_false_eq_true, true_and]

theorem clientIP_newEngine (parseIP : String → Option String) (peer : String) (h : Header) :
    (newEngine parseIP).clientIP peer h = believed parseIP peer h := by
  unfold Engine.clientIP believed
  have hparse : (newEngine parseIP).parseIP peer = parseIP peer := rfl
  rw [hparse]
  cases parseIP peer with
  | none => rfl
  | some ip =>
      have htrust : (newEngine parseIP).isTrustedProxy ip = true := rfl
      have hnames : (newEngine parseIP).remoteIPHeaders = ["X-Forwarded-For", "X-Real-IP"] := rfl
      simp only [htrust, if_true, hnames, List.findSome?_cons, List.findSome?_nil,
        validateHeader_newEngine]
      cases leftmost parseIP (h "X-Forwarded-For") with
      | some a => rfl
      | none => cases leftmost parseIP (h "X-Real-IP") <;> rfl

/-! ## One peer, many headers -/

/-- A request of a peer: when it comes, and the headers it chose. -/
structure Arrival where
  time : Int
  header : Header

/-- The limiter call that `RateLimit` makes for it: `clientKey := c.ClientIP()`. -/
def Arrival.request (e : Engine) (peer : String) (a : Arrival) : Request :=
  ⟨a.time, e.clientIP peer a.header⟩

/-- When each call was made, and whether it passed, with Redis available throughout. -/
def outcomes (l : Limiter) (rs : List Request) : List (Int × Bool) :=
  (rs.map Request.time).zip ((answers l.step Store.empty rs).map Result.allowed)

/-- In no window do more than `limit` calls pass. -/
def NeverOver (l : Limiter) (os : List (Int × Bool)) : Prop :=
  ∀ win ∈ Lib.windows Prod.fst (fun t => t + l.length) os,
    ((win.countP (fun o => o.2) : Nat) : Int) ≤ max 0 l.limit

theorem outcomes_times (l : Limiter) (rs : List Request) :
    (outcomes l rs).map Prod.fst = rs.map Request.time := by
  unfold outcomes
  rw [List.map_fst_zip]
  simp

theorem outcomes_allowed (l : Limiter) (rs : List Request) :
    (outcomes l rs).map Prod.snd = (answers l.step Store.empty rs).map Result.allowed := by
  unfold outcomes
  rw [List.map_snd_zip]
  simp

/-- An outcome is a request's time, and what some call was told. -/
theorem outcome_mem {l : Limiter} {rs : List Request} {o : Int × Bool} (ho : o ∈ outcomes l rs) :
    (∃ r ∈ rs, r.time = o.1) ∧ ∃ a ∈ answers l.step Store.empty rs, a.allowed = o.2 := by
  have htime : o.1 ∈ (outcomes l rs).map Prod.fst := List.mem_map_of_mem ho
  have hallowed : o.2 ∈ (outcomes l rs).map Prod.snd := List.mem_map_of_mem ho
  rw [outcomes_times] at htime
  rw [outcomes_allowed] at hallowed
  exact ⟨List.mem_map.mp htime, List.mem_map.mp hallowed⟩

/-- Calls under one key are all the calls of that client. -/
theorem one_key_verdicts {l : Limiter} {s : Store} {rs : List Request} {key : String}
    (hs : s (redisKey key) = none) (hkey : ∀ r ∈ rs, r.clientKey = key) :
    (answers l.step s rs).map Result.verdict
      = (l.windows (rs.map Request.time)).flatMap l.tolds := by
  have hfilter : rs.filter (fun r => r.clientKey = key) = rs :=
    List.filter_eq_self.mpr fun r hr => decide_eq_true (hkey r hr)
  have hall : l.answersTo key s rs = answers l.step s rs := by
    unfold Limiter.answersTo Lib.answersTo
    rw [List.filter_eq_self.mpr, List.map_snd_zip]
    · simp
    · intro x hx
      exact decide_eq_true (hkey x.1 (List.of_mem_zip hx).1)
  have hown := (answersTo_eq l s rs key).1
  have hwin := (serve_windows l (s (redisKey key)) (timesOf key rs)
    (fun t _ => by rw [hs]; rfl)).1
  rw [← hall, hown, hwin]
  unfold timesOf
  rw [hfilter]

/-- Under one key no window lets more than `limit` calls pass. -/
theorem neverOver_of_one_key {l : Limiter} {rs : List Request} (key : String)
    (hkey : ∀ r ∈ rs, r.clientKey = key) : NeverOver l (outcomes l rs) := by
  have hverdicts := one_key_verdicts (l := l) (s := Store.empty) rfl hkey
  have hmap := windows_map (fun t : Int => t) (fun t => t + l.length) Prod.fst (outcomes l rs)
  have hflat := windows_flatten Prod.fst (fun t => t + l.length) (outcomes l rs)
  rw [outcomes_times] at hmap
  generalize hos : Lib.windows Prod.fst (fun t => t + l.length) (outcomes l rs) = ws at hmap hflat
  -- window by window, what passed is what its calls are told
  have hshape : ws.map (List.map Prod.snd)
      = (l.windows (rs.map Request.time)).map
          (fun w => (l.tolds w).map (fun v => v.1)) := by
    refine List.eq_iff_flatten_eq.mpr ⟨?_, ?_⟩
    · rw [← List.map_flatten, hflat, outcomes_allowed]
      have hfst := congrArg (List.map Prod.fst) hverdicts
      rw [List.map_map] at hfst
      refine hfst.trans ?_
      rw [List.map_flatMap]
      rfl
    · unfold Limiter.windows
      rw [← hmap]
      simp [Limiter.tolds]
  intro win hwin
  rw [hos] at hwin
  have hmem : win.map Prod.snd ∈ ws.map (List.map Prod.snd) := List.mem_map_of_mem hwin
  rw [hshape] at hmem
  obtain ⟨w, _, hw⟩ := List.mem_map.mp hmem
  have hcount : win.countP (fun o => o.2) = (l.tolds w).countP (fun v => v.1) := by
    have h1 : win.countP (fun o => o.2) = (win.map Prod.snd).countP (fun b => b) := by
      rw [List.countP_map]
      rfl
    rw [h1, ← hw, List.countP_map]
    rfl
  rw [hcount, l.tolds_allowed]
  exact min_le_left _ _

/-- No more than `limit` calls under one key all pass. -/
theorem all_allowed {l : Limiter} {s : Store} {rs : List Request} (key : String)
    (hs : s (redisKey key) = none) (hkey : ∀ r ∈ rs, r.clientKey = key)
    (hlen : (rs.length : Int) ≤ l.limit) : ∀ a ∈ answers l.step s rs, a.allowed = true := by
  intro a ha
  have hmem : a.verdict ∈ (answers l.step s rs).map Result.verdict := List.mem_map_of_mem ha
  rw [one_key_verdicts hs hkey] at hmem
  obtain ⟨win, hwin, hv⟩ := List.mem_flatMap.mp hmem
  obtain ⟨k, hk, hkv⟩ := List.mem_map.mp hv
  have hflat : (l.windows (rs.map Request.time)).flatten = rs.map Request.time :=
    windows_flatten _ _ _
  have hsub := (List.sublist_flatten_of_mem hwin).length_le
  rw [hflat, List.length_map] at hsub
  have hk' := List.mem_range'_1.mp hk
  have : a.allowed = decide ((k : Int) ≤ l.limit) := (congrArg Prod.fst hkv).symm
  rw [this]
  exact decide_eq_true (by omega)

/-- Whatever the keys, every answer is what some call of a window is told. -/
theorem answer_told {l : Limiter} {rs : List Request} {a : Result}
    (ha : a ∈ answers l.step Store.empty rs) : ∃ k, 1 ≤ k ∧ a.verdict = l.told k := by
  have hlen : (answers l.step Store.empty rs).length = rs.length := answers_length _ _ _
  obtain ⟨i, hi, rfl⟩ := List.getElem_of_mem ha
  have hir : i < rs.length := hlen ▸ hi
  have hzip : (rs[i], (answers l.step Store.empty rs)[i])
      ∈ rs.zip (answers l.step Store.empty rs) := by
    refine List.mem_iff_getElem.mpr ⟨i, by simp [hir], ?_⟩
    exact List.getElem_zip
  have hmem : (answers l.step Store.empty rs)[i] ∈ l.answersTo rs[i].clientKey Store.empty rs :=
    List.mem_map.mpr ⟨_, List.mem_filter.mpr ⟨hzip, by simp⟩, rfl⟩
  rw [(answersTo_eq l Store.empty rs _).1] at hmem
  have hv := List.mem_map_of_mem (f := Result.verdict) hmem
  rw [(serve_windows l _ _ (fun t _ => rfl)).1] at hv
  obtain ⟨win, _, hv⟩ := List.mem_flatMap.mp hv
  obtain ⟨k, hk, hkv⟩ := List.mem_map.mp hv
  exact ⟨k, (List.mem_range'_1.mp hk).1, hkv.symm⟩

/-- A limit that is not positive lets nothing pass. -/
theorem neverOver_of_no_limit {l : Limiter} (hl : l.limit ≤ 0) (rs : List Request) :
    NeverOver l (outcomes l rs) := by
  have hnone : ∀ o ∈ outcomes l rs, o.2 = false := by
    intro o ho
    obtain ⟨_, a, ha, hao⟩ := outcome_mem ho
    obtain ⟨k, hk, hv⟩ := answer_told ha
    have : a.allowed = decide ((k : Int) ≤ l.limit) := congrArg Prod.fst hv
    rw [← hao, this]
    exact decide_eq_false (by omega)
  intro win hwin
  have hcount : win.countP (fun o => o.2) = 0 := by
    refine List.countP_eq_zero.mpr fun o ho => ?_
    have hflat := windows_flatten Prod.fst (fun t => t + l.length) (outcomes l rs)
    have hmem : o ∈ outcomes l rs := by
      rw [← hflat]
      exact List.mem_flatten_of_mem hwin ho
    simp [hnone o hmem]
  rw [hcount]
  exact le_max_left _ _

/-- A client that has not called has no counter. -/
theorem no_counter {l : Limiter} {rs : List Request} {key : String}
    (h : ∀ r ∈ rs, r.clientKey ≠ key) : final l.step Store.empty rs (redisKey key) = none := by
  have hnone : rs.filter (fun r => r.clientKey = key) = [] :=
    List.filter_eq_nil_iff.mpr fun r hr => by simpa using h r hr
  rw [(step_projects l Store.empty rs key).2, hnone]
  rfl

/-- Two keys let more than `limit` calls of one moment pass. -/
theorem over_of_two_keys {l : Limiter} {k k' : String} (hne : k ≠ k') (hl : 1 ≤ l.limit) :
    ¬ NeverOver l (outcomes l (List.replicate l.limit.toNat ⟨0, k⟩ ++ [⟨0, k'⟩])) := by
  intro hover
  have hkey : ∀ r ∈ List.replicate l.limit.toNat (⟨0, k⟩ : Request), r = ⟨0, k⟩ :=
    fun r hr => List.eq_of_mem_replicate hr
  have hcounter : final l.step Store.empty (List.replicate l.limit.toNat ⟨0, k⟩) (redisKey k')
      = none := no_counter fun r hr => by rw [hkey r hr]; exact hne
  generalize hrs : List.replicate l.limit.toNat (⟨0, k⟩ : Request) = rs at *
  have hlen : rs.length = l.limit.toNat := by rw [← hrs, List.length_replicate]
  have hallowed : ∀ a ∈ answers l.step Store.empty (rs ++ [⟨0, k'⟩]), a.allowed = true := by
    intro a ha
    rw [answers_append] at ha
    rcases List.mem_append.mp ha with ha | ha
    · exact all_allowed k rfl (fun r hr => by rw [hkey r hr]) (by omega) a ha
    · -- the second key starts its own count
      refine all_allowed k' hcounter (fun r hr => ?_) (by simpa using hl) a ha
      rw [List.mem_singleton.mp hr]
  have htimes : ∀ o ∈ outcomes l (rs ++ [⟨0, k'⟩]), o.1 = 0 := by
    intro o ho
    obtain ⟨⟨r, hr, hro⟩, _⟩ := outcome_mem ho
    rcases List.mem_append.mp hr with hr | hr
    · rw [← hro, hkey r hr]
    · rw [← hro, List.mem_singleton.mp hr]
  have hpass : ∀ o ∈ outcomes l (rs ++ [⟨0, k'⟩]), o.2 = true := by
    intro o ho
    obtain ⟨_, a, ha, hao⟩ := outcome_mem ho
    rw [← hao, hallowed a ha]
  have hcount : (outcomes l (rs ++ [⟨0, k'⟩])).length = l.limit.toNat + 1 := by
    have := congrArg List.length (outcomes_times l (rs ++ [⟨0, k'⟩]))
    rw [List.length_map, List.length_map, List.length_append, hlen] at this
    exact this
  generalize outcomes l (rs ++ [⟨0, k'⟩]) = os at *
  -- all of it is one window
  cases os with
  | nil => simp at hcount
  | cons o os =>
      have hin : os.takeWhile (fun j => j.1 < o.1 + l.length) = os := by
        refine List.takeWhile_eq_self_iff.mpr fun j hj => decide_eq_true ?_
        rw [htimes j (List.mem_cons_of_mem _ hj), htimes o (List.mem_cons_self ..)]
        have := l.length_pos
        omega
      have hle := hover (o :: os) (by rw [windows_cons, hin]; exact List.mem_cons_self ..)
      rw [List.countP_eq_length.mpr hpass, hcount] at hle
      omega

/--
**A peer is one client while its headers resolve to one address.**

For a peer that may send the headers in `H`: in every sequence of its requests no
more than `limit` pass in any window, if and only if nothing may pass at all or all
headers in `H` make the engine believe in the same address; and its requests share
one limiter key if and only if the latter holds.
-/
theorem one_client_iff (parseIP : String → Option String) (l : Limiter) (peer : String)
    (H : Set Header) :
    ((∀ (t₀ : Int) (as : List Arrival), Lib.InOrder Arrival.time t₀ as → (∀ a ∈ as, a.header ∈ H) →
          NeverOver l (outcomes l (as.map (Arrival.request (newEngine parseIP) peer))))
        ↔ l.limit ≤ 0 ∨ ∀ h ∈ H, ∀ h' ∈ H, believed parseIP peer h = believed parseIP peer h')
      ∧ ((∀ h ∈ H, ∀ h' ∈ H,
            (newEngine parseIP).clientIP peer h = (newEngine parseIP).clientIP peer h')
          ↔ ∀ h ∈ H, ∀ h' ∈ H, believed parseIP peer h = believed parseIP peer h') := by
  refine ⟨⟨?_, ?_⟩, by simp only [clientIP_newEngine]⟩
  · intro hnever
    by_contra hcon
    obtain ⟨hl, hdiff⟩ := not_or.mp hcon
    refine hdiff fun h hh h' hh' => ?_
    by_contra hne
    -- fill the limit under the first address, and pass once more under the second
    have hover := hnever 0 (List.replicate l.limit.toNat ⟨0, h⟩ ++ [⟨0, h'⟩])
      (by
        rw [← List.replicate_one]
        generalize l.limit.toNat = n
        induction n with
        | zero => simp [Lib.InOrder]
        | succ n ih => exact ⟨le_refl _, ih⟩)
      (by
        intro a ha
        rcases List.mem_append.mp ha with ha | ha
        · rw [List.eq_of_mem_replicate ha]; exact hh
        · rw [List.mem_singleton.mp ha]; exact hh')
    rw [List.map_append, List.map_replicate] at hover
    simp only [Arrival.request, clientIP_newEngine, List.map_cons, List.map_nil] at hover
    exact over_of_two_keys hne (by omega) hover
  · intro hcond t₀ as _ hin
    rcases hcond with hl | hsame
    · exact neverOver_of_no_limit hl _
    · -- all requests have the key of the first
      cases as with
      | nil =>
          refine neverOver_of_one_key "" fun r hr => ?_
          cases hr
      | cons a as =>
          refine neverOver_of_one_key (believed parseIP peer a.header) fun r hr => ?_
          obtain ⟨b, hb, rfl⟩ := List.mem_map.mp hr
          simp only [Arrival.request, clientIP_newEngine]
          exact hsame _ (hin b hb) _ (hin a (List.mem_cons_self ..))

/-- `net.ParseIP` on addresses in dotted decimal. -/
def parseIPv4 (s : String) : Option String :=
  let fields := s.toList.splitOn '.'
  let ok := fun (f : List Char) => f ≠ [] ∧ f.length ≤ 3 ∧ f.all Char.isDigit
    ∧ (f.head? = some '0' → f = ['0']) ∧ f.foldl (fun n c => 10 * n + (c.toNat - 48)) 0 ≤ 255
  if fields.length = 4 ∧ fields.all (fun f => decide (ok f)) then some s else none

/-- The headers of a request that claims to come for `ip`. -/
def spoofed (ip : String) : Header := fun name => if name = "X-Forwarded-For" then ip else ""

/--
**A new header is a new client.** With a limit of one in a minute, a peer sends two
requests at once, each with an address of its own making in `X-Forwarded-For`, and both
pass.
-/
theorem new_header_new_client :
    ¬ ∀ (parseIP : String → Option String) (l : Limiter) (peer : String) (t₀ : Int)
        (as : List Arrival), Lib.InOrder Arrival.time t₀ as →
          NeverOver l (outcomes l (as.map (Arrival.request (newEngine parseIP) peer))) := by
  intro h
  have hover := h parseIPv4 ⟨1, 60 * second⟩ "10.0.0.1" 0
    [⟨0, spoofed "1.1.1.1"⟩, ⟨0, spoofed "2.2.2.2"⟩] (by simp [Lib.InOrder])
  have h1 : (newEngine parseIPv4).clientIP "10.0.0.1" (spoofed "1.1.1.1") = "1.1.1.1" := by decide
  have h2 : (newEngine parseIPv4).clientIP "10.0.0.1" (spoofed "2.2.2.2") = "2.2.2.2" := by decide
  simp only [List.map_cons, List.map_nil, Arrival.request, h1, h2] at hover
  exact over_of_two_keys (l := ⟨1, 60 * second⟩) (k := "1.1.1.1") (by decide) (by decide) hover

end ApiGateway.RateLimit
