import Mathlib.Data.List.Basic
import Mathlib.Algebra.BigOperators.Group.List.Basic

/-!
# File names as bytes and as text

`os.fsdecode` under UTF-8: a sequence of bytes that is no UTF-8 is kept as surrogates, one for each
byte, so that every file name has a text and `os.fsencode` gives its bytes back. A text is a list of
code points here, since a surrogate is no character.
-/

namespace Workbay.FsPath

open List

/-! ## Decoding -/

/-- The bits that a continuation byte carries. -/
def tailBits (b : UInt8) : Option Nat :=
  if 0x80 ≤ b.toNat ∧ b.toNat < 0xC0 then some (b.toNat - 0x80) else none

/-- A code point of two bytes. -/
def twoBytes (a b : UInt8) : Option Nat :=
  if 0xC2 ≤ a.toNat ∧ a.toNat < 0xE0 then
    (tailBits b).map fun y => (a.toNat - 0xC0) * 64 + y
  else none

/-- A code point of three bytes. -/
def threeBytes (a b c : UInt8) : Option Nat :=
  if 0xE0 ≤ a.toNat ∧ a.toNat < 0xF0 then
    (tailBits b).bind fun y => (tailBits c).bind fun z =>
      let n := (a.toNat - 0xE0) * 4096 + y * 64 + z
      if 0x800 ≤ n ∧ (n < 0xD800 ∨ 0xE000 ≤ n) then some n else none
  else none

/-- A code point of four bytes. -/
def fourBytes (a b c d : UInt8) : Option Nat :=
  if 0xF0 ≤ a.toNat ∧ a.toNat < 0xF8 then
    (tailBits b).bind fun y => (tailBits c).bind fun z => (tailBits d).bind fun w =>
      let n := (a.toNat - 0xF0) * 262144 + y * 4096 + z * 64 + w
      if 0x10000 ≤ n ∧ n < 0x110000 then some n else none
  else none

/-- The code point at the head of bytes, and how many bytes it has but for the first. -/
def codePoint (a : UInt8) (rest : List UInt8) : Nat × Nat :=
  if a.toNat < 0x80 then (a.toNat, 0)
  else
    match rest with
    | [] => (0xDC00 + a.toNat, 0)
    | b :: more =>
      match twoBytes a b with
      | some n => (n, 1)
      | none =>
        match more with
        | [] => (0xDC00 + a.toNat, 0)
        | c :: more =>
          match threeBytes a b c with
          | some n => (n, 2)
          | none =>
            match more with
            | [] => (0xDC00 + a.toNat, 0)
            | d :: _ =>
              match fourBytes a b c d with
              | some n => (n, 3)
              | none => (0xDC00 + a.toNat, 0)

/-- The loop of the decoder, after bytes of the last code point that are to be skipped. -/
def decodeFrom : Nat → List UInt8 → List Nat
  | _, [] => []
  | skip + 1, _ :: rest => decodeFrom skip rest
  | 0, a :: rest => (codePoint a rest).1 :: decodeFrom (codePoint a rest).2 rest

/-- `os.fsdecode` -/
def fsdecode (bytes : List UInt8) : List Nat := decodeFrom 0 bytes

/-! ## Encoding -/

/-- The bytes of a code point. -/
def encodePoint (n : Nat) : List UInt8 :=
  if n < 0x80 then [UInt8.ofNat n]
  else if n < 0x800 then [UInt8.ofNat (0xC0 + n / 64), UInt8.ofNat (0x80 + n % 64)]
  else if 0xDC80 ≤ n ∧ n < 0xDD00 then [UInt8.ofNat (n - 0xDC00)]
  else if n < 0x10000 then
    [UInt8.ofNat (0xE0 + n / 4096), UInt8.ofNat (0x80 + n / 64 % 64), UInt8.ofNat (0x80 + n % 64)]
  else [UInt8.ofNat (0xF0 + n / 262144), UInt8.ofNat (0x80 + n / 4096 % 64),
    UInt8.ofNat (0x80 + n / 64 % 64), UInt8.ofNat (0x80 + n % 64)]

/-- `os.fsencode` -/
def fsencode (text : List Nat) : List UInt8 := text.flatMap encodePoint

variable {n u : Nat} {a b : UInt8} {bytes : List UInt8}

theorem ofNat_eq (h : n = a.toNat) : UInt8.ofNat n = a := by
  rw [h, UInt8.ofNat_toNat]

theorem tailBits_eq_some {y : Nat} : tailBits b = some y ↔ b.toNat = 0x80 + y ∧ y < 64 := by
  rw [tailBits]
  split
  · rw [Option.some.injEq]
    omega
  · simp only [reduceCtorEq, false_iff]
    omega

/-- What `codePoint` reads are the bytes that encode it; only a byte of ASCII is a code point of
ASCII. -/
structure Reads (a : UInt8) (rest : List UInt8) (n skip : Nat) : Prop where
  encode : encodePoint n = a :: rest.take skip
  ascii : n < 0x80 → n = a.toNat ∧ skip = 0

theorem reads_surrogate (h : ¬ a.toNat < 0x80) (rest : List UInt8) :
    Reads a rest (0xDC00 + a.toNat) 0 := by
  have hlt : a.toNat < 256 := a.toNat_lt
  refine ⟨?_, fun hn => by omega⟩
  rw [encodePoint, if_neg (by omega), if_neg (by omega), if_pos (by omega), take_zero]
  rw [ofNat_eq (show 0xDC00 + a.toNat - 0xDC00 = a.toNat by omega)]

theorem reads_two (h : twoBytes a b = some n) (rest : List UInt8) : Reads a (b :: rest) n 1 := by
  rw [twoBytes] at h
  split at h
  · rename_i ha
    obtain ⟨y, hy, rfl⟩ := Option.map_eq_some_iff.mp h
    obtain ⟨hb, hlt⟩ := tailBits_eq_some.mp hy
    refine ⟨?_, fun hn => by omega⟩
    rw [encodePoint, if_neg (by omega), if_pos (by omega)]
    rw [ofNat_eq (a := a) (by omega), ofNat_eq (a := b) (by omega)]
    rfl
  · cases h

theorem reads_three {c : UInt8} (h : threeBytes a b c = some n) (rest : List UInt8) :
    Reads a (b :: c :: rest) n 2 := by
  rw [threeBytes] at h
  split at h
  · rename_i ha
    obtain ⟨y, hy, h⟩ := Option.bind_eq_some_iff.mp h
    obtain ⟨z, hz, h⟩ := Option.bind_eq_some_iff.mp h
    obtain ⟨hb, hylt⟩ := tailBits_eq_some.mp hy
    obtain ⟨hc, hzlt⟩ := tailBits_eq_some.mp hz
    simp only [Option.ite_none_right_eq_some, Option.some.injEq] at h
    obtain ⟨hn, rfl⟩ := h
    refine ⟨?_, fun hn => by omega⟩
    rw [encodePoint, if_neg (by omega), if_neg (by omega), if_neg (by omega), if_pos (by omega)]
    rw [ofNat_eq (a := a) (by omega), ofNat_eq (a := b) (by omega), ofNat_eq (a := c) (by omega)]
    rfl
  · cases h

theorem reads_four {c d : UInt8} (h : fourBytes a b c d = some n) (rest : List UInt8) :
    Reads a (b :: c :: d :: rest) n 3 := by
  rw [fourBytes] at h
  split at h
  · rename_i ha
    obtain ⟨y, hy, h⟩ := Option.bind_eq_some_iff.mp h
    obtain ⟨z, hz, h⟩ := Option.bind_eq_some_iff.mp h
    obtain ⟨w, hw, h⟩ := Option.bind_eq_some_iff.mp h
    obtain ⟨hb, hylt⟩ := tailBits_eq_some.mp hy
    obtain ⟨hc, hzlt⟩ := tailBits_eq_some.mp hz
    obtain ⟨hd, hwlt⟩ := tailBits_eq_some.mp hw
    simp only [Option.ite_none_right_eq_some, Option.some.injEq] at h
    obtain ⟨hn, rfl⟩ := h
    refine ⟨?_, fun hn => by omega⟩
    rw [encodePoint, if_neg (by omega), if_neg (by omega), if_neg (by omega), if_neg (by omega)]
    rw [ofNat_eq (a := a) (by omega), ofNat_eq (a := b) (by omega), ofNat_eq (a := c) (by omega),
      ofNat_eq (a := d) (by omega)]
    rfl
  · cases h

theorem codePoint_reads (a : UInt8) (rest : List UInt8) :
    Reads a rest (codePoint a rest).1 (codePoint a rest).2 := by
  unfold codePoint
  split
  · rename_i ha
    refine ⟨?_, fun _ => ⟨rfl, rfl⟩⟩
    rw [encodePoint, if_pos ha, UInt8.ofNat_toNat, take_zero]
  · rename_i ha
    split
    · exact reads_surrogate ha _
    · split
      · rename_i htwo
        exact reads_two htwo _
      · split
        · exact reads_surrogate ha _
        · split
          · rename_i hthree
            exact reads_three hthree _
          · split
            · exact reads_surrogate ha _
            · split
              · rename_i hfour
                exact reads_four hfour _
              · exact reads_surrogate ha _

/-! ## Round trip -/

theorem decodeFrom_eq (skip : Nat) (bytes : List UInt8) :
    decodeFrom skip bytes = fsdecode (bytes.drop skip) := by
  induction skip generalizing bytes with
  | zero => rfl
  | succ skip ih =>
    cases bytes with
    | nil => rfl
    | cons a rest => exact ih rest

theorem fsdecode_cons (a : UInt8) (rest : List UInt8) :
    fsdecode (a :: rest) =
      (codePoint a rest).1 :: fsdecode (rest.drop (codePoint a rest).2) := by
  rw [fsdecode, decodeFrom, decodeFrom_eq]

theorem fsdecode_induct {P : List UInt8 → Prop} (hnil : P [])
    (hcons : ∀ a rest, P (rest.drop (codePoint a rest).2) → P (a :: rest)) (bytes : List UInt8) :
    P bytes := by
  induction hlen : bytes.length using Nat.strongRecOn generalizing bytes with
  | ind n ih =>
    cases bytes with
    | nil => exact hnil
    | cons a rest =>
      refine hcons a rest (ih _ ?_ _ rfl)
      rw [← hlen, length_drop, length_cons]
      omega

/-- `os.fsencode` gives back the bytes that `os.fsdecode` has read. -/
theorem fsencode_fsdecode (bytes : List UInt8) : fsencode (fsdecode bytes) = bytes := by
  induction bytes using fsdecode_induct with
  | hnil => rfl
  | hcons a rest ih =>
    rw [fsdecode_cons, fsencode, flatMap_cons, (codePoint_reads a rest).encode]
    rw [fsencode] at ih
    rw [ih, cons_append, take_append_drop]

theorem mem_of_ascii (h : u ∈ fsdecode bytes) (hu : u < 0x80) : ∃ b ∈ bytes, b.toNat = u := by
  induction bytes using fsdecode_induct with
  | hnil => cases h
  | hcons a rest ih =>
    rw [fsdecode_cons] at h
    rcases mem_cons.mp h with rfl | h
    · exact ⟨a, mem_cons_self, ((codePoint_reads a rest).ascii hu).1.symm⟩
    · obtain ⟨b, hb, hbu⟩ := ih h
      exact ⟨b, mem_cons_of_mem _ (mem_of_mem_drop hb), hbu⟩

theorem head_of_ascii (h : u ∈ (fsdecode bytes).head?) (hu : u < 0x80) :
    ∃ b ∈ bytes.head?, b.toNat = u := by
  cases bytes with
  | nil => cases h
  | cons a rest =>
    rw [fsdecode_cons] at h
    obtain rfl : (codePoint a rest).1 = u := by simpa using h
    exact ⟨a, rfl, ((codePoint_reads a rest).ascii hu).1.symm⟩

theorem getLast_of_ascii (h : u ∈ (fsdecode bytes).getLast?) (hu : u < 0x80) :
    ∃ b ∈ bytes.getLast?, b.toNat = u := by
  induction bytes using fsdecode_induct with
  | hnil => cases h
  | hcons a rest ih =>
    rw [fsdecode_cons] at h
    by_cases hrest : rest.drop (codePoint a rest).2 = []
    · rw [hrest] at h
      obtain rfl : (codePoint a rest).1 = u := by simpa [fsdecode, decodeFrom] using h
      obtain ⟨hcode, hskip⟩ := (codePoint_reads a rest).ascii hu
      rw [hskip, drop_zero] at hrest
      exact ⟨a, by rw [hrest]; rfl, hcode.symm⟩
    · have hne : fsdecode (rest.drop (codePoint a rest).2) ≠ [] := by
        intro hnil
        have hback := fsencode_fsdecode (rest.drop (codePoint a rest).2)
        rw [hnil] at hback
        exact hrest hback.symm
      rw [getLast?_cons_of_ne_nil hne] at h
      obtain ⟨b, hb, hbu⟩ := ih h
      refine ⟨b, ?_, hbu⟩
      have hsuffix : rest.drop (codePoint a rest).2 <:+ a :: rest :=
        (drop_suffix _ _).trans (suffix_cons a rest)
      obtain ⟨before, hbefore⟩ := hsuffix
      rw [← hbefore, getLast?_append_of_ne_nil _ hrest]
      exact hb

end Workbay.FsPath
