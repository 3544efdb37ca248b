import PBTransfor.Uws.Headers

/-!
# Uws — the address a client connects to

`parseURI` of `Hub.cpp`.  `parseURI_iff` says what it accepts, and what it makes of it: after the
scheme a host, in brackets or up to a `':'` or a `'/'`; a port; and a path.  What follows the
bracket of a host is left out when it is neither a port nor a path, and so is what follows the
number of a port.
-/

namespace PBTransfor.Uws

open Library

/-- What `parseURI` finds; the path is without its `'/'`. -/
structure Uri where
  secure : Bool
  hostname : List Byte
  port : Int
  path : List Byte
  deriving DecidableEq, Repr

/-! ### stoi -/

/-- `isspace`. -/
def isSpace (c : Byte) : Bool := c = 32 || (9 ≤ c && c ≤ 13)

def isDigit (c : Byte) : Bool := 48 ≤ c && c ≤ 57

/-- The value of decimal digits. -/
def valueOf (digits : List Byte) : Nat := digits.foldl (fun n c => 10 * n + (c.toNat - 48)) 0

/-- A sign, and what is behind it. -/
def readSign : List Byte → Bool × List Byte
  | [] => (false, [])
  | c :: s => if c = 45 then (true, s) else if c = 43 then (false, s) else (false, c :: s)

/-- `std::stoi`, `none` where it throws: there is no digit, or the number is not an `int`.  What
follows the digits does not matter. -/
def stoi (s : List Byte) : Option Int :=
  let (neg, s) := readSign (s.dropWhile isSpace)
  let digits := s.takeWhile isDigit
  if digits = [] then none
  else
    let z : Int := if neg then -valueOf digits else valueOf digits
    if -2147483648 ≤ z ∧ z ≤ 2147483647 then some z else none

/-! ### parseURI -/

def defaultPort (secure : Bool) : Int := if secure then 443 else 80

/-- `uri[offset] != '/'`. -/
def notSlash (c : Byte) : Bool := c ≠ 47

/-- Not one of `":/"`. -/
def inHost (c : Byte) : Bool := c ≠ 58 && c ≠ 47

/-- Not `']'`. -/
def inBrackets (c : Byte) : Bool := c ≠ 93

/-- `parseURI`, behind the port. -/
def parsePath (secure : Bool) (hostname : List Byte) (port : Int) : List Byte → Uri
  | [] => ⟨secure, hostname, port, []⟩
  | c :: rest => ⟨secure, hostname, port, if c = 47 then rest else []⟩

/-- `parseURI`, behind the host. -/
def parsePort (secure : Bool) (hostname : List Byte) : List Byte → Option Uri
  | [] => some ⟨secure, hostname, defaultPort secure, []⟩
  | c :: rest =>
      if c = 58 then
        let portStr := rest.takeWhile notSlash
        if portStr = [] then none
        else (stoi portStr).map fun port =>
          parsePath secure hostname port (rest.dropWhile notSlash)
      else some (parsePath secure hostname (defaultPort secure) (c :: rest))

/-- `parseURI`, behind the scheme. -/
def parseHost (secure : Bool) : List Byte → Option Uri
  | [] => none
  | c :: rest =>
      if c = 91 then
        match rest.dropWhile inBrackets with
        | [] => none
        | _ :: behind => parsePort secure (rest.takeWhile inBrackets) behind
      else parsePort secure ((c :: rest).takeWhile inHost) ((c :: rest).dropWhile inHost)

def parseURI (uri : List Byte) : Option Uri :=
  if (text "wss://").isPrefixOf uri then parseHost true (uri.drop 6)
  else if (text "ws://").isPrefixOf uri then parseHost false (uri.drop 5)
  else none

/-! ### What it accepts -/

def scheme (secure : Bool) : List Byte := if secure then text "wss://" else text "ws://"

/-- How a host is written; `closed` says that it is in brackets. -/
inductive Host : Bool → List Byte → List Byte → Prop where
  | plain {h} (hin : ∀ c ∈ h, inHost c = true) (hhead : ∀ c ∈ h.head?, c ≠ 91) : Host false h h
  | brackets {h} (hin : ∀ c ∈ h, inBrackets c = true) : Host true (91 :: (h ++ [93])) h

/-- How a port and a path are written, or what may stand in their place. -/
inductive Behind (secure : Bool) : Bool → List Byte → Int → List Byte → Prop where
  | nothing {closed} : Behind secure closed [] (defaultPort secure) []
  | path {closed} (path) : Behind secure closed (47 :: path) (defaultPort secure) path
  | port {closed portStr z} (hin : ∀ c ∈ portStr, notSlash c = true)
      (hport : stoi portStr = some z) :
      Behind secure closed (58 :: portStr) z []
  | portPath {closed portStr z} (hin : ∀ c ∈ portStr, notSlash c = true)
      (hport : stoi portStr = some z) (path) :
      Behind secure closed (58 :: (portStr ++ 47 :: path)) z path
  | other {c rest} (hcolon : c ≠ 58) (hslash : c ≠ 47) :
      Behind secure true (c :: rest) (defaultPort secure) []

section
variable {secure : Bool} {h b rest : List Byte} {u : Uri}

theorem notSlash_iff {c : Byte} : notSlash c = false ↔ c = 47 := by
  rw [notSlash, decide_eq_false_iff_not, not_not]

/-- What is made of what stands behind a host. -/
theorem parsePort_iff {closed : Bool} {z : Int} {path : List Byte}
    (hb : ∀ c ∈ b.head?, c ≠ 58 → c ≠ 47 → closed = true) :
    parsePort secure h b = some ⟨secure, h, z, path⟩ ↔ Behind secure closed b z path := by
  constructor
  · intro hparse
    cases b with
    | nil =>
        cases hparse
        exact .nothing
    | cons c rest =>
        rw [parsePort] at hparse
        split at hparse
        -- `:` and the port, up to the slash before the path, if there is one
        · next hc =>
            have hport := cut notSlash rest
            dsimp only at hparse
            split at hparse
            · cases hparse
            obtain ⟨z', hz, hpath⟩ := Option.map_eq_some_iff.mp hparse
            rw [hc, hport.eq]
            cases hrest : rest.dropWhile notSlash with
            | nil =>
                rw [hrest] at hpath
                cases hpath
                rw [List.append_nil]
                exact .port hport.all hz
            | cons d behind =>
                have hd : d = 47 := notSlash_iff.mp (hport.head d (by rw [hrest]; rfl))
                rw [hrest, parsePath, if_pos hd] at hpath
                cases hpath
                rw [hd]
                exact .portPath hport.all hz _
        · next hc =>
            rw [parsePath] at hparse
            cases hparse
            split
            · next hslash =>
                rw [hslash]
                exact .path rest
            · next hslash =>
                obtain rfl := hb c rfl hc hslash
                exact .other hc hslash
  · intro hbehind
    have hne : ∀ portStr z, stoi portStr = some z → portStr ≠ [] := by
      rintro portStr z hz rfl
      cases hz
    cases hbehind with
    | nothing => rfl
    | path => rfl
    | port hin hport =>
        have hcut : Cut notSlash _ _ [] := ⟨(List.append_nil _).symm, hin, nofun⟩
        rw [parsePort, if_pos rfl]
        simp only [hcut.takeWhile_eq, hcut.dropWhile_eq, if_neg (hne _ _ hport), hport]
        rfl
    | portPath hin hport path =>
        have hcut : Cut notSlash _ _ (47 :: path) := ⟨rfl, hin, fun c hc => by cases hc; rfl⟩
        rw [parsePort, if_pos rfl]
        simp only [hcut.takeWhile_eq, hcut.dropWhile_eq, if_neg (hne _ _ hport), hport]
        rfl
    | other hcolon hslash => rw [parsePort, if_neg hcolon, parsePath, if_neg hslash]

theorem parsePort_fields (hparse : parsePort secure h b = some u) :
    u.secure = secure ∧ u.hostname = h := by
  have hpath : ∀ z r, (parsePath secure h z r).secure = secure ∧
      (parsePath secure h z r).hostname = h := by
    intro z r
    cases r <;> exact ⟨rfl, rfl⟩
  cases b with
  | nil =>
      cases hparse
      exact ⟨rfl, rfl⟩
  | cons c rest =>
      rw [parsePort] at hparse
      split at hparse
      · dsimp only at hparse
        split at hparse
        · cases hparse
        obtain ⟨z, -, rfl⟩ := Option.map_eq_some_iff.mp hparse
        exact hpath z _
      · cases hparse
        exact hpath _ _

theorem Behind.head {z : Int} {path : List Byte} (h : Behind secure false b z path) :
    ∀ c ∈ b.head?, inHost c = false ∧ c ≠ 91 := by
  intro c hc
  cases h <;> cases hc <;> exact ⟨rfl, by decide⟩

theorem inHost_eq_false {c : Byte} (h : inHost c = false) (h₅₈ : c ≠ 58) : c = 47 := by
  simpa [inHost, h₅₈] using h

theorem parseHost_iff : parseHost secure b = some u ↔ b ≠ [] ∧ u.secure = secure ∧
    ∃ closed written behind, b = written ++ behind ∧ Host closed written u.hostname ∧
      Behind secure closed behind u.port u.path := by
  constructor
  · intro hparse
    obtain ⟨_, name, z, path⟩ := u
    cases b with
    | nil => cases hparse
    | cons c rest =>
        refine ⟨List.cons_ne_nil _ _, ?_⟩
        rw [parseHost] at hparse
        split at hparse
        · next hc =>
            -- `[`: the name goes up to the `]`, which has to be there
            have hhost := cut inBrackets rest
            split at hparse
            · cases hparse
            next d behind hrest =>
            rw [hrest] at hhost
            have hd : d = 93 := by simpa [inBrackets] using hhost.head d rfl
            obtain ⟨rfl, hname⟩ := parsePort_fields hparse
            dsimp only at hname
            subst hname
            refine ⟨rfl, true, _, behind, ?_, .brackets hhost.all,
              (parsePort_iff fun _ _ _ _ => rfl).mp hparse⟩
            rw [hc, List.cons_append, List.append_assoc, ← hd]
            exact congrArg (91 :: ·) hhost.eq
        · next hc =>
            have hhost := cut inHost (c :: rest)
            obtain ⟨rfl, hname⟩ := parsePort_fields hparse
            dsimp only at hname
            subst hname
            refine ⟨rfl, false, _, _, hhost.eq, .plain hhost.all fun x hx => ?_,
              (parsePort_iff fun x hx h₅₈ h₄₇ => ?_).mp hparse⟩
            · have hfront : x ∈ (c :: rest).head? := by
                rw [hhost.eq]
                exact List.mem_head?_append_of_mem_head? hx
              cases hfront
              exact hc
            · exact absurd (inHost_eq_false (hhost.head x hx) h₅₈) h₄₇
  · rintro ⟨hne, hsecure, closed, written, behind, rfl, hhost, hbehind⟩
    cases hhost with
    | brackets hin =>
        have hcut : Cut inBrackets (u.hostname ++ 93 :: behind) u.hostname (93 :: behind) :=
          ⟨rfl, hin, fun c hc => by cases hc; rfl⟩
        have hparse := (parsePort_iff (h := u.hostname) fun _ _ _ _ => rfl).mpr hbehind
        rw [List.cons_append, List.append_assoc, List.singleton_append, parseHost, if_pos rfl]
        simp only [hcut.dropWhile_eq, hcut.takeWhile_eq]
        rw [hparse, ← hsecure]
    | plain hin hhead =>
        have hcut : Cut inHost (u.hostname ++ behind) u.hostname behind :=
          ⟨rfl, hin, fun c hc => (hbehind.head c hc).1⟩
        -- the name ends where a `:` or a `/` begins what is behind it
        have hparse := (parsePort_iff (h := u.hostname) fun c hc h₅₈ h₄₇ =>
          absurd (inHost_eq_false (hbehind.head c hc).1 h₅₈) h₄₇).mpr hbehind
        obtain ⟨c, rest, hb⟩ := List.exists_cons_of_ne_nil hne
        have hc : c ≠ 91 := by
          cases hname : u.hostname with
          | nil =>
              rw [hname, List.nil_append] at hb
              exact (hbehind.head c (by rw [hb]; rfl)).2
          | cons d h =>
              rw [hname] at hb hhead
              cases hb
              exact hhead c rfl
        rw [hb] at hcut ⊢
        rw [parseHost, if_neg hc, hcut.takeWhile_eq, hcut.dropWhile_eq, hparse, ← hsecure]

theorem parseURI_scheme {uri : List Byte} : parseURI uri = some u ↔
    ∃ b, uri = scheme u.secure ++ b ∧ parseHost u.secure b = some u := by
  constructor
  · intro hparse
    rw [parseURI] at hparse
    split at hparse
    · next hwss =>
        obtain ⟨b, rfl⟩ := List.isPrefixOf_iff_prefix.mp hwss
        have hhost : parseHost true b = some u := hparse
        have hsecure : u.secure = true := (parseHost_iff.mp hhost).2.1
        rw [hsecure]
        exact ⟨b, rfl, hhost⟩
    split at hparse
    · next hws =>
        obtain ⟨b, rfl⟩ := List.isPrefixOf_iff_prefix.mp hws
        have hhost : parseHost false b = some u := hparse
        have hsecure : u.secure = false := (parseHost_iff.mp hhost).2.1
        rw [hsecure]
        exact ⟨b, rfl, hhost⟩
    · cases hparse
  · rintro ⟨b, rfl, hhost⟩
    cases hsecure : u.secure with
    | true =>
        rw [hsecure] at hhost
        exact hhost
    | false =>
        rw [hsecure] at hhost
        exact hhost

/-- **What `parseURI` accepts**: behind the scheme, which is not all, a host and what may stand
behind it. -/
theorem parseURI_iff {uri : List Byte} : parseURI uri = some u ↔
    ∃ closed written behind, uri = scheme u.secure ++ (written ++ behind) ∧
      Host closed written u.hostname ∧ Behind u.secure closed behind u.port u.path ∧
      written ++ behind ≠ [] := by
  rw [parseURI_scheme]
  constructor
  · rintro ⟨b, rfl, hhost⟩
    obtain ⟨hne, -, closed, written, behind, rfl, h⟩ := parseHost_iff.mp hhost
    exact ⟨closed, written, behind, rfl, h.1, h.2, hne⟩
  · rintro ⟨closed, written, behind, rfl, hhost, hbehind, hne⟩
    exact ⟨_, rfl, parseHost_iff.mpr ⟨hne, rfl, closed, written, behind, rfl, hhost, hbehind⟩⟩

end

end PBTransfor.Uws
