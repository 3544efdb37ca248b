import PBTransfor.Library.Cut
import PBTransfor.Uws.Mask

/-!
# Uws — the head of an HTTP message

`getHeaders` reads a head line by line, from bytes that end where the reader puts a `'\r'`.  It
puts the keys in lower case where they lie, so that what it has been given is changed even when it
finds the head incomplete.

* `getHeaders_iff`: a head is one to 99 lines (`HeaderLine`) and a blank one.
* `getHeaders_append`: a head that is complete stays what it is, whatever follows it.
* `getHeaders_retry`: to try again on the changed bytes, and more of them, comes to the same as to
  try on all of them at once.
-/

namespace PBTransfor.Uws

open Library

/-- The bytes of a literal. -/
def text (s : String) : List Byte := s.toList.map fun c => c.toNat.toUInt8

structure Header where
  key : List Byte
  value : List Byte
  deriving DecidableEq, Repr

/-! ### getHeaders -/

/-- `(*buffer != ':') & (*buffer > 32)`; a `char` is signed. -/
def isKey (c : Byte) : Bool := c ≠ 58 && 32 < c.toInt8

/-- `(*buffer == ':' || *buffer < 33) && *buffer != '\r'`. -/
def isGap (c : Byte) : Bool := (c = 58 || c.toInt8 < 33) && c ≠ 13

/-- `*buffer != '\r'`. -/
def isValue (c : Byte) : Bool := c ≠ 13

/-- `*buffer |= 32`. -/
def lower (c : Byte) : Byte := c ||| 32

/-- What a round of `getHeaders` finds. -/
inductive Line where
  /-- No whole line. -/
  | broken
  | blank (rest : List Byte)
  | header (h : Header) (rest : List Byte)
  deriving DecidableEq, Repr

/-- A round of `getHeaders`, behind the key. -/
def readLine (key : List Byte) : List Byte → Line
  | [] => .broken -- the `'\r'` at the end
  | c :: rest =>
      if c = 13 then
        if rest.head? = some 10 then .blank rest.tail else .broken
      else
        let buffer := rest.dropWhile isGap
        match buffer.dropWhile isValue with
        | _ :: 10 :: rest => .header ⟨key, buffer.takeWhile isValue⟩ rest
        | _ => .broken

/-- `getHeaders(buffer, end, headers, i + n)` from round `i` on: what the bytes have become, and,
when the head is complete, its headers and what is behind it. -/
def getHeaders : Nat → Nat → List Byte → List Byte × Option (List Header × List Byte)
  | 0, _, buffer => (buffer, none)
  | n + 1, i, buffer =>
      let key := (buffer.takeWhile isKey).map lower
      let lowered := key ++ buffer.dropWhile isKey
      match readLine key (buffer.dropWhile isKey) with
      | .broken => (lowered, none)
      | .blank rest => (lowered, if 0 < i then some ([], rest) else none)
      | .header h rest =>
          let r := getHeaders n (i + 1) rest
          (lowered.take (lowered.length - rest.length) ++ r.1,
            r.2.map fun (hs, rest) => (h :: hs, rest))

/-- `HttpRequest::getHeader`, which does not look at the first line. -/
def getHeader (headers : List Header) (key : List Byte) : Option Header :=
  headers.tail.find? fun h => h.key = key

/-! ### Lines -/

/-- A line of a head.  `mark` ends the key: as a rule it is the `':'`. -/
structure HeaderLine where
  key : List Byte
  mark : Byte
  gap : List Byte
  value : List Byte
  key_isKey : ∀ c ∈ key, isKey c = true
  mark_isKey : isKey mark = false
  mark_ne : mark ≠ 13
  gap_isGap : ∀ c ∈ gap, isGap c = true
  value_head : ∀ c ∈ value.head?, isGap c = false
  value_isValue : ∀ c ∈ value, isValue c = true

namespace HeaderLine

def header (l : HeaderLine) : Header := ⟨l.key.map lower, l.value⟩

/-- The line behind its key. -/
def tail (l : HeaderLine) : List Byte := l.mark :: (l.gap ++ (l.value ++ [13, 10]))

def bytes (l : HeaderLine) : List Byte := l.key ++ l.tail

end HeaderLine

/-! ### Lower case -/

theorem isKey_lower (c : Byte) (h : isKey c = true) : isKey (lower c) = true := by
  have hall : ∀ n < 256, isKey (UInt8.ofNat n) = true → isKey (lower (UInt8.ofNat n)) = true := by
    decide +kernel
  rw [← UInt8.ofNat_toNat (x := c)] at h ⊢
  exact hall _ c.toNat_lt h

theorem lower_lower (c : Byte) : lower (lower c) = lower c := by
  rw [lower, lower, UInt8.or_assoc]
  rfl

theorem map_lower_lower (b : List Byte) : (b.map lower).map lower = b.map lower := by
  rw [List.map_map]
  exact List.map_congr_left fun c _ => lower_lower c

/-- The line, once its key is in lower case. -/
def HeaderLine.lowered (l : HeaderLine) : HeaderLine :=
  { l with
    key := l.key.map lower
    key_isKey := by
      intro c hc
      obtain ⟨d, hd, rfl⟩ := List.mem_map.mp hc
      exact isKey_lower d (l.key_isKey d hd) }

@[simp] theorem HeaderLine.lowered_header (l : HeaderLine) : l.lowered.header = l.header := by
  rw [header, header, lowered, map_lower_lower]

@[simp] theorem HeaderLine.lowered_lowered (l : HeaderLine) : l.lowered.lowered = l.lowered := by
  simp only [lowered, map_lower_lower]

section
variable {key b rest : List Byte} {n i : Nat}

/-! ### A round -/

theorem HeaderLine.cut_value (l : HeaderLine) (rest : List Byte) :
    Cut isValue (l.value ++ 13 :: 10 :: rest) l.value (13 :: 10 :: rest) where
  eq := rfl
  all := l.value_isValue
  head c hc := by
    cases hc
    rfl

theorem HeaderLine.cut_gap (l : HeaderLine) (rest : List Byte) :
    Cut isGap (l.gap ++ (l.value ++ 13 :: 10 :: rest)) l.gap (l.value ++ 13 :: 10 :: rest) where
  eq := rfl
  all := l.gap_isGap
  head c hc := by
    have hvalue := l.value_head
    cases hv : l.value with
    | nil =>
        rw [hv] at hc
        cases hc
        rfl
    | cons d value =>
        rw [hv] at hc hvalue
        exact hvalue c hc

theorem HeaderLine.tail_append (l : HeaderLine) (rest : List Byte) :
    l.tail ++ rest = l.mark :: (l.gap ++ (l.value ++ 13 :: 10 :: rest)) := by
  simp only [tail, List.cons_append, List.append_assoc, List.nil_append]

theorem HeaderLine.cut_key (l : HeaderLine) (rest : List Byte) :
    Cut isKey (l.bytes ++ rest) l.key (l.tail ++ rest) where
  eq := List.append_assoc ..
  all := l.key_isKey
  head c hc := by
    cases hc
    exact l.mark_isKey

/-- A line is found, whatever follows it. -/
theorem readLine_tail (key : List Byte) (l : HeaderLine) (rest : List Byte) :
    readLine key (l.tail ++ rest) = .header ⟨key, l.value⟩ rest := by
  rw [l.tail_append, readLine, if_neg l.mark_ne]
  simp only [(l.cut_gap rest).dropWhile_eq, (l.cut_value rest).dropWhile_eq,
    (l.cut_value rest).takeWhile_eq]

/-- What a round comes to. -/
inductive Round (b : List Byte) : Prop where
  | line (l : HeaderLine) (rest : List Byte) (hb : b = l.bytes ++ rest)
  | blank (key rest : List Byte) (hkey : ∀ c ∈ key, isKey c = true)
      (hb : b = key ++ 13 :: 10 :: rest)
  | broken (h : ∀ key, readLine key (b.dropWhile isKey) = .broken)

theorem round (b : List Byte) : Round b := by
  have hb := cut isKey b
  cases hr : b.dropWhile isKey with
  | nil => exact .broken fun key => by rw [hr]; rfl
  | cons c rest =>
      rw [hr] at hb
      -- a line that begins with `'\r'` is the blank one, or broken
      by_cases hc : c = 13
      · by_cases hnl : rest.head? = some 10
        · obtain ⟨rest', hrest'⟩ := List.head?_eq_some_iff.mp hnl
          refine .blank _ rest' hb.all ?_
          rw [← hrest', ← hc]
          exact hb.eq
        · exact .broken fun key => by rw [hr, readLine, if_pos hc, if_neg hnl]
      · have hgap := cut isGap rest
        have hvalue := cut isValue (rest.dropWhile isGap)
        cases hv : (rest.dropWhile isGap).dropWhile isValue with
        | nil => exact .broken fun key => by simp only [hr, readLine, if_neg hc, hv]
        | cons d more =>
            rw [hv] at hvalue
            have hd : d = 13 := by simpa [isValue] using hvalue.head d rfl
            by_cases hnl : more.head? = some 10
            · obtain ⟨rest', rfl⟩ := List.head?_eq_some_iff.mp hnl
              refine .line
                { key := b.takeWhile isKey
                  mark := c
                  gap := rest.takeWhile isGap
                  value := (rest.dropWhile isGap).takeWhile isValue
                  key_isKey := hb.all
                  mark_isKey := hb.head c rfl
                  mark_ne := hc
                  gap_isGap := hgap.all
                  value_head := ?_
                  value_isValue := hvalue.all } rest' ?_
              · intro x hx
                refine hgap.head x ?_
                rw [hvalue.eq]
                exact List.mem_head?_append_of_mem_head? hx
              · have hrest := hgap.eq.trans (congrArg (rest.takeWhile isGap ++ ·) hvalue.eq)
                rw [hd] at hrest
                rw [HeaderLine.bytes, List.append_assoc, HeaderLine.tail_append]
                exact hb.eq.trans (congrArg (fun r => b.takeWhile isKey ++ c :: r) hrest)
            -- a `'\r'` that no `'\n'` follows
            · refine .broken fun key => ?_
              simp only [hr, readLine, if_neg hc, hv]
              split
              · next heq =>
                  cases heq
                  exact absurd rfl hnl
              · rfl

/-- A round that finds a line. -/
theorem getHeaders_line (n i : Nat) (l : HeaderLine) (rest : List Byte) :
    getHeaders (n + 1) i (l.bytes ++ rest) =
      (l.lowered.bytes ++ (getHeaders n (i + 1) rest).1,
        (getHeaders n (i + 1) rest).2.map fun (hs, rest) => (l.header :: hs, rest)) := by
  have hcut := l.cut_key rest
  have hfront : (l.key.map lower ++ (l.tail ++ rest)).take
      ((l.key.map lower ++ (l.tail ++ rest)).length - rest.length) = l.lowered.bytes := by
    rw [← List.append_assoc, List.length_append, Nat.add_sub_cancel]
    exact List.take_left
  simp only [getHeaders, hcut.takeWhile_eq, hcut.dropWhile_eq, readLine_tail, hfront]
  rfl

/-- A round that finds a blank line. -/
theorem getHeaders_blank (n i : Nat) (hkey : ∀ c ∈ key, isKey c = true) (rest : List Byte) :
    getHeaders (n + 1) i (key ++ 13 :: 10 :: rest) =
      (key.map lower ++ 13 :: 10 :: rest, if 0 < i then some ([], rest) else none) := by
  have hcut : Cut isKey (key ++ 13 :: 10 :: rest) key (13 :: 10 :: rest) := by
    refine ⟨rfl, hkey, fun c hc => ?_⟩
    cases hc
    rfl
  simp only [getHeaders, hcut.takeWhile_eq, hcut.dropWhile_eq]
  rfl

/-- What a round finds, and what it leaves, is decided by the key in lower case and by what follows
it. -/
theorem getHeaders_congr {b' : List Byte} (hd : b.dropWhile isKey = b'.dropWhile isKey)
    (ht : (b.takeWhile isKey).map lower = (b'.takeWhile isKey).map lower) :
    getHeaders (n + 1) i b = getHeaders (n + 1) i b' := by
  simp only [getHeaders, hd, ht]

/-! ### The head -/

/-- **What a head is**: lines, of which there is one at least, and a blank line, and no more of
them than are asked for. -/
theorem getHeaders_iff {hs : List Header} : (getHeaders n i b).2 = some (hs, rest) ↔
    ∃ (ls : List HeaderLine) (key : List Byte), (∀ c ∈ key, isKey c = true) ∧
      b = ls.flatMap HeaderLine.bytes ++ (key ++ 13 :: 10 :: rest) ∧
      hs = ls.map HeaderLine.header ∧ ls.length < n ∧ 0 < i + ls.length := by
  induction n generalizing i b hs with
  | zero => exact iff_of_false nofun fun ⟨_, _, _, _, _, hlt, _⟩ => absurd hlt (Nat.not_lt_zero _)
  | succ n ih =>
      constructor
      · intro h
        cases round b with
        | line l more hb =>
            rw [hb, getHeaders_line, Option.map_eq_some_iff] at h
            obtain ⟨⟨hs', rest'⟩, hmore, heq⟩ := h
            cases heq
            obtain ⟨ls, key, hkey, hbytes, rfl, hlt, -⟩ := ih.mp hmore
            refine ⟨l :: ls, key, hkey, ?_, rfl, Nat.succ_lt_succ hlt, Nat.succ_pos _⟩
            rw [hb, hbytes, List.flatMap_cons, List.append_assoc]
        | blank key more hkey hb =>
            rw [hb, getHeaders_blank n i hkey] at h
            split at h
            · next hi =>
                cases h
                exact ⟨[], key, hkey, hb, rfl, Nat.succ_pos n, hi⟩
            · cases h
        | broken hbroken =>
            simp only [getHeaders, hbroken] at h
            cases h
      · rintro ⟨ls, key, hkey, rfl, rfl, hlt, hpos⟩
        cases ls with
        | nil =>
            have hi : 0 < i := hpos
            rw [List.flatMap_nil, List.nil_append, getHeaders_blank n i hkey, if_pos hi]
            rfl
        | cons l ls =>
            have hmore : (getHeaders n (i + 1) (ls.flatMap HeaderLine.bytes ++
                (key ++ 13 :: 10 :: rest))).2 = some (ls.map HeaderLine.header, rest) :=
              ih.mpr ⟨ls, key, hkey, rfl, rfl, Nat.lt_of_succ_lt_succ hlt, by omega⟩
            rw [List.flatMap_cons, List.append_assoc, getHeaders_line, hmore]
            rfl

/-- **A complete head stays what it is**, whatever follows it. -/
theorem getHeaders_append {hs : List Header} (c : List Byte)
    (h : (getHeaders n i b).2 = some (hs, rest)) :
    (getHeaders n i (b ++ c)).2 = some (hs, rest ++ c) := by
  obtain ⟨ls, key, hkey, rfl, hhs, hlt, hpos⟩ := getHeaders_iff.mp h
  refine getHeaders_iff.mpr ⟨ls, key, hkey, ?_, hhs, hlt, hpos⟩
  simp only [List.append_assoc, List.cons_append]

/-- Nothing is moved. -/
theorem length_getHeaders : (getHeaders n i b).1.length = b.length := by
  induction n generalizing i b with
  | zero => rfl
  | succ n ih =>
      cases round b with
      | line l rest hb =>
          rw [hb, getHeaders_line]
          simp only [List.length_append, HeaderLine.bytes, HeaderLine.lowered, List.length_map, ih]
          rfl
      | blank key rest hkey hb =>
          rw [hb, getHeaders_blank n i hkey]
          simp only [List.length_append, List.length_map]
      | broken hbroken =>
          simp only [getHeaders, hbroken, List.length_append, List.length_map]
          rw [← List.length_append, List.takeWhile_append_dropWhile]

/-- **To try again** on what a try has left, and more, comes to the same as to try on all of it at
once. -/
theorem getHeaders_retry (n i : Nat) (b c : List Byte) :
    getHeaders n i ((getHeaders n i b).1 ++ c) = getHeaders n i (b ++ c) := by
  induction n generalizing i b with
  | zero => rfl
  | succ n ih =>
      cases round b with
      | line l rest hb =>
          rw [hb, getHeaders_line, List.append_assoc, List.append_assoc, getHeaders_line,
            getHeaders_line, ih, HeaderLine.lowered_lowered, HeaderLine.lowered_header]
      | blank key rest hkey hb =>
          have hkey' : ∀ c ∈ key.map lower, isKey c = true := by
            intro c hc
            obtain ⟨d, hd, rfl⟩ := List.mem_map.mp hc
            exact isKey_lower d (hkey d hd)
          rw [hb, getHeaders_blank n i hkey, List.append_assoc, List.append_assoc]
          exact (getHeaders_blank n i hkey' (rest ++ c)).trans (by
            rw [map_lower_lower]
            exact (getHeaders_blank n i hkey (rest ++ c)).symm)
      | broken hbroken =>
          have hb := cut isKey b
          have hmap := hb.map isKey_lower
          have hleft : (getHeaders (n + 1) i b).1 =
              (b.takeWhile isKey).map lower ++ b.dropWhile isKey := by
            simp only [getHeaders, hbroken]
          rw [hleft]
          by_cases hr : b.dropWhile isKey = []
          · -- all of it is a key, which what comes makes longer
            have hc := cut isKey c
            have hall : b = b.takeWhile isKey := hb.eq.trans (by rw [hr, List.append_nil])
            rw [hr, List.append_nil]
            have hnew := hc.prepend (c := (b.takeWhile isKey).map lower) hmap.all
            have hold : Cut isKey (b ++ c) _ _ := hc.prepend fun x hx => hb.all x (hall ▸ hx)
            refine getHeaders_congr ?_ ?_
            · rw [hnew.dropWhile_eq, hold.dropWhile_eq]
            · rw [hnew.takeWhile_eq, hold.takeWhile_eq, List.map_append, List.map_append,
                map_lower_lower, ← hall]
          · have hnew := hmap.append hr c
            have hold := hb.append hr c
            refine getHeaders_congr ?_ ?_
            · rw [hnew.dropWhile_eq, hold.dropWhile_eq]
            · rw [hnew.takeWhile_eq, hold.takeWhile_eq, map_lower_lower]

/-- What follows a complete head is left alone, and the head has room for every key. -/
theorem getHeaders_front {hs : List Header} (h : (getHeaders n i b).2 = some (hs, rest)) :
    ∃ front, (getHeaders n i b).1 = front ++ rest ∧
      2 ≤ front.length ∧ ∀ x ∈ hs, x.key.length + 5 ≤ front.length := by
  induction n generalizing i b hs with
  | zero => cases h
  | succ n ih =>
      cases round b with
      | line l more hb =>
          rw [hb, getHeaders_line, Option.map_eq_some_iff] at h
          obtain ⟨⟨hs', rest'⟩, hmore, heq⟩ := h
          cases heq
          obtain ⟨front, hfront, hblank, hroom⟩ := ih hmore
          refine ⟨l.lowered.bytes ++ front, ?_, ?_⟩
          · rw [hb, getHeaders_line, hfront, List.append_assoc]
          · have hline : l.header.key.length + 3 ≤ l.lowered.bytes.length := by
              simp only [HeaderLine.header, HeaderLine.lowered, HeaderLine.bytes, HeaderLine.tail,
                List.length_append, List.length_cons, List.length_map, List.length_nil]
              omega
            rw [List.length_append]
            refine ⟨Nat.le_trans hblank (Nat.le_add_left _ _), List.forall_mem_cons.mpr ⟨?_, ?_⟩⟩
            · show l.header.key.length + 3 + 2 ≤ _
              exact Nat.add_le_add hline hblank
            · intro x hx
              exact Nat.le_trans (hroom x hx) (Nat.le_add_left _ _)
      | blank key more hkey hb =>
          rw [hb, getHeaders_blank n i hkey] at h ⊢
          split at h
          · cases h
            refine ⟨key.map lower ++ [13, 10], by rw [List.append_assoc]; rfl, ?_, nofun⟩
            rw [List.length_append]
            exact Nat.le_add_left _ _
          · cases h
      | broken hbroken =>
          simp only [getHeaders, hbroken] at h
          cases h

end

end PBTransfor.Uws
