import Mathlib.Data.List.Sort
import Mathlib.Data.String.Basic
import Workbay.Data.Dict
import Workbay.Data.Number

/-!
# JSON values

The values that `json` reads and writes, with the text that `json.dumps` gives them when keys are
sorted, separators are compact and non-ASCII characters are kept. A finite binary64 is represented
by the shortest decimal that reads back as it, which is what its text is made of.
-/

namespace Workbay

open List

/-- A JSON value; the members of an object are in insertion order. -/
inductive Json where
  | null
  | bool (b : Bool)
  | int (i : Int)
  /-- `±digits · 10 ^ exp` -/
  | float (neg : Bool) (digits : Nat) (exp : Int)
  | str (s : String)
  | arr (xs : List Json)
  | obj (members : List (String × Json))

namespace Dict

theorem get?_orderedInsert {α : Type} (kv : String × α) (d : Dict String α) (k : String) :
    get? (d.orderedInsert (fun a b => a.1 ≤ b.1) kv) k = get? (kv :: d) k := by
  induction d with
  | nil => rfl
  | cons b d ih =>
    by_cases hle : kv.1 ≤ b.1
    · rw [orderedInsert_cons, if_pos hle]
    · have hne : kv.1 ≠ b.1 := fun heq => hle (le_of_eq heq)
      rw [orderedInsert_cons, if_neg hle, get?_cons, ih, get?_cons, get?_cons, get?_cons]
      by_cases hk : kv.1 = k
      · rw [if_pos hk, if_pos hk, if_neg (fun hb => hne (hk.trans hb.symm))]
      · rw [if_neg hk, if_neg hk]

theorem get?_insertionSort {α : Type} (d : Dict String α) (k : String) :
    get? (d.insertionSort fun a b => a.1 ≤ b.1) k = get? d k := by
  induction d with
  | nil => rfl
  | cons kv d ih => rw [insertionSort_cons, get?_orderedInsert, get?_cons, ih, get?_cons]

end Dict

namespace Json

/-! ## Equality -/

mutual

/-- Equality of values is decidable. -/
protected def decEq : (a b : Json) → Decidable (a = b)
  | .null, .null => isTrue rfl
  | .bool b, .bool c =>
    if h : b = c then isTrue (by rw [h]) else isFalse fun e => h (Json.bool.inj e)
  | .int i, .int j =>
    if h : i = j then isTrue (by rw [h]) else isFalse fun e => h (Json.int.inj e)
  | .float n d x, .float m e y =>
    if h : n = m ∧ d = e ∧ x = y then isTrue (by rw [h.1, h.2.1, h.2.2])
    else isFalse fun he => h (Json.float.inj he)
  | .str s, .str t =>
    if h : s = t then isTrue (by rw [h]) else isFalse fun e => h (Json.str.inj e)
  | .arr xs, .arr ys =>
    match Json.decEqList xs ys with
    | isTrue h => isTrue (by rw [h])
    | isFalse h => isFalse fun e => h (Json.arr.inj e)
  | .obj xs, .obj ys =>
    match Json.decEqMembers xs ys with
    | isTrue h => isTrue (by rw [h])
    | isFalse h => isFalse fun e => h (Json.obj.inj e)
  | .null, .bool _ | .null, .int _ | .null, .float .. | .null, .str _ | .null, .arr _
  | .null, .obj _ | .bool _, .null | .bool _, .int _ | .bool _, .float .. | .bool _, .str _
  | .bool _, .arr _ | .bool _, .obj _ | .int _, .null | .int _, .bool _ | .int _, .float ..
  | .int _, .str _ | .int _, .arr _ | .int _, .obj _ | .float .., .null | .float .., .bool _
  | .float .., .int _ | .float .., .str _ | .float .., .arr _ | .float .., .obj _
  | .str _, .null | .str _, .bool _ | .str _, .int _ | .str _, .float .. | .str _, .arr _
  | .str _, .obj _ | .arr _, .null | .arr _, .bool _ | .arr _, .int _ | .arr _, .float ..
  | .arr _, .str _ | .arr _, .obj _ | .obj _, .null | .obj _, .bool _ | .obj _, .int _
  | .obj _, .float .. | .obj _, .str _ | .obj _, .arr _ => isFalse nofun

/-- Equality of lists of values is decidable. -/
protected def decEqList : (xs ys : List Json) → Decidable (xs = ys)
  | [], [] => isTrue rfl
  | [], _ :: _ | _ :: _, [] => isFalse nofun
  | x :: xs, y :: ys =>
    match Json.decEq x y, Json.decEqList xs ys with
    | isTrue h, isTrue h' => isTrue (by rw [h, h'])
    | isFalse h, _ => isFalse fun e => h (cons.inj e).1
    | _, isFalse h => isFalse fun e => h (cons.inj e).2

/-- Equality of lists of members is decidable. -/
protected def decEqMembers : (xs ys : List (String × Json)) → Decidable (xs = ys)
  | [], [] => isTrue rfl
  | [], _ :: _ | _ :: _, [] => isFalse nofun
  | (k, x) :: xs, (l, y) :: ys =>
    if hk : k = l then
      match Json.decEq x y, Json.decEqMembers xs ys with
      | isTrue h, isTrue h' => isTrue (by rw [hk, h, h'])
      | isFalse h, _ => isFalse fun e => h (Prod.mk.inj (cons.inj e).1).2
      | _, isFalse h => isFalse fun e => h (cons.inj e).2
    else isFalse fun e => hk (Prod.mk.inj (cons.inj e).1).1

end

instance : DecidableEq Json := Json.decEq

/-! ## Access -/

/-- `value.get(key)` on an object; other values have no members. -/
def get? : Json → String → Option Json
  | .obj members, key => Dict.get? members key
  | _, _ => none

/-- The string, if the value is one. -/
def str? : Json → Option String
  | .str s => some s
  | _ => none

/-- The integer, if `type(value) is int`. -/
def int? : Json → Option Int
  | .int i => some i
  | _ => none

/-- The boolean, if `type(value) is bool`. -/
def bool? : Json → Option Bool
  | .bool b => some b
  | _ => none

/-- The members, if the value is an object. -/
def obj? : Json → Option (List (String × Json))
  | .obj members => some members
  | _ => none

/-- The elements, if the value is an array. -/
def arr? : Json → Option (List Json)
  | .arr xs => some xs
  | _ => none

/-! ## Distinct keys -/

mutual

/-- The keys of every object are distinct. -/
def wellFormed : Json → Bool
  | .arr xs => wellFormedList xs
  | .obj members => decide (members.map Prod.fst).Nodup && wellFormedMembers members
  | _ => true

/-- The keys of every object in a list are distinct. -/
def wellFormedList : List Json → Bool
  | [] => true
  | x :: xs => wellFormed x && wellFormedList xs

/-- The keys of every object among members are distinct. -/
def wellFormedMembers : List (String × Json) → Bool
  | [] => true
  | (_, x) :: members => wellFormed x && wellFormedMembers members

end

theorem wellFormed_of_mem {members : List (String × Json)} (h : wellFormedMembers members = true)
    {key : String} {value : Json} (hm : (key, value) ∈ members) : wellFormed value = true := by
  induction members with
  | nil => cases hm
  | cons entry members ih =>
    rw [wellFormedMembers, Bool.and_eq_true] at h
    rcases mem_cons.mp hm with heq | hm
    · rw [← heq] at h
      exact h.1
    · exact ih h.2 hm

theorem wellFormedList_map_str (ss : List String) : wellFormedList (ss.map .str) = true := by
  induction ss with
  | nil => rfl
  | cons s ss ih => simpa [wellFormedList, wellFormed] using ih

/-! ## Sorted keys -/

mutual

/-- `json.loads(json.dumps(value, sort_keys=True))` -/
def sortKeys : Json → Json
  | .arr xs => .arr (sortKeysList xs)
  | .obj members => .obj ((sortKeysMembers members).insertionSort fun a b => a.1 ≤ b.1)
  | x => x

/-- Sort the keys of every object in a list. -/
def sortKeysList : List Json → List Json
  | [] => []
  | x :: xs => sortKeys x :: sortKeysList xs

/-- Sort the keys of every object among members. -/
def sortKeysMembers : List (String × Json) → List (String × Json)
  | [] => []
  | (k, x) :: xs => (k, sortKeys x) :: sortKeysMembers xs

end

/-- `json.loads(json.dumps(members, sort_keys=True))`, of a dict -/
def sortMembers (members : List (String × Json)) : List (String × Json) :=
  (sortKeysMembers members).insertionSort fun a b => a.1 ≤ b.1

theorem sortKeysMembers_eq (members : List (String × Json)) :
    sortKeysMembers members = members.map fun kv => (kv.1, sortKeys kv.2) := by
  induction members with
  | nil => rfl
  | cons kv members ih => rw [sortKeysMembers, ih]; rfl

theorem get?_sortMembers (members : List (String × Json)) (k : String) :
    Dict.get? (sortMembers members) k = (Dict.get? members k).map sortKeys := by
  rw [sortMembers, Dict.get?_insertionSort, sortKeysMembers_eq]
  induction members with
  | nil => rfl
  | cons kv members ih =>
    rw [map_cons, Dict.get?_cons, ih, Dict.get?_cons]
    split <;> rfl

theorem sorted_sort (members : List (String × Json)) :
    (members.insertionSort fun a b => a.1 ≤ b.1).insertionSort (fun a b => a.1 ≤ b.1) =
      members.insertionSort fun a b => a.1 ≤ b.1 := by
  have htotal : Std.Total fun a b : String × Json => a.1 ≤ b.1 := ⟨fun a b => le_total a.1 b.1⟩
  have htrans : IsTrans (String × Json) fun a b => a.1 ≤ b.1 :=
    ⟨fun _ _ _ hab hbc => le_trans hab hbc⟩
  exact List.Pairwise.insertionSort_eq (pairwise_insertionSort _ members)

mutual

theorem sortKeys_sortKeys : (j : Json) → sortKeys (sortKeys j) = sortKeys j
  | .arr xs => congrArg Json.arr (sortKeysList_sortKeysList xs)
  | .obj members => by
    have hmap : sortKeysMembers ((sortKeysMembers members).insertionSort fun a b => a.1 ≤ b.1) =
        (sortKeysMembers (sortKeysMembers members)).insertionSort fun a b => a.1 ≤ b.1 := by
      rw [sortKeysMembers_eq, sortKeysMembers_eq (sortKeysMembers members)]
      exact map_insertionSort _ _ _ _ fun _ _ _ _ => Iff.rfl
    rw [sortKeys, sortKeys, hmap, sortKeysMembers_sortKeysMembers, sorted_sort]
  | .null | .bool _ | .int _ | .float .. | .str _ => rfl

theorem sortKeysList_sortKeysList : (xs : List Json) →
    sortKeysList (sortKeysList xs) = sortKeysList xs
  | [] => rfl
  | x :: xs => by
    rw [sortKeysList, sortKeysList, sortKeys_sortKeys x, sortKeysList_sortKeysList xs]

theorem sortKeysMembers_sortKeysMembers : (members : List (String × Json)) →
    sortKeysMembers (sortKeysMembers members) = sortKeysMembers members
  | [] => rfl
  | (k, x) :: members => by
    rw [sortKeysMembers, sortKeysMembers, sortKeys_sortKeys x,
      sortKeysMembers_sortKeysMembers members]

end

/-! ## Text -/

/-- The hexadecimal digit of a number below 16. -/
def hexDigit (n : Nat) : Char := ("0123456789abcdef".toList).getD n '0'

/-- The escape of one character in a JSON string that keeps non-ASCII characters. -/
def escapeChar (c : Char) : List Char :=
  if c = '"' then ['\\', '"']
  else if c = '\\' then ['\\', '\\']
  else if c = '\n' then ['\\', 'n']
  else if c = '\r' then ['\\', 'r']
  else if c = '\t' then ['\\', 't']
  else if c.toNat = 12 then ['\\', 'f']
  else if c.toNat = 8 then ['\\', 'b']
  else if c.toNat < 32 then
    ['\\', 'u', '0', '0', hexDigit (c.toNat / 16), hexDigit (c.toNat % 16)]
  else [c]

/-- A string as JSON text. -/
def quote (s : String) : String :=
  String.ofList (['"'] ++ s.toList.flatMap escapeChar ++ ['"'])

/-- `n` zeros. -/
def zeros (n : Nat) : String := String.ofList (replicate n '0')

/-- The text of a finite binary64: positional for exponents from -4 to 15, scientific beyond. -/
def floatText (neg : Bool) (digits : Nat) (exp : Int) : String :=
  let ds := toString digits
  let n : Int := ds.length
  let point := n + exp
  let sign := if neg then "-" else ""
  if digits = 0 then sign ++ "0.0"
  else if point ≤ -4 ∨ 16 < point then
    let e := point - 1
    let mantissa :=
      if ds.length = 1 then ds
      else String.ofList (ds.toList.take 1) ++ "." ++ String.ofList (ds.toList.drop 1)
    let esign := if e < 0 then "-" else "+"
    let etext := toString e.natAbs
    sign ++ mantissa ++ "e" ++ esign ++ (if etext.length = 1 then "0" ++ etext else etext)
  else if point ≤ 0 then sign ++ "0." ++ zeros point.natAbs ++ ds
  else if n ≤ point then sign ++ ds ++ zeros (point - n).toNat ++ ".0"
  else
    sign ++ String.ofList (ds.toList.take point.toNat) ++ "." ++
      String.ofList (ds.toList.drop point.toNat)

/-- Texts joined by commas. -/
def commaJoin : List String → String
  | [] => ""
  | [s] => s
  | s :: rest => s ++ "," ++ commaJoin rest

mutual

/-- `json.dumps(value, sort_keys=True, ensure_ascii=False, separators=(",", ":"))` -/
def dumps : Json → String
  | .null => "null"
  | .bool true => "true"
  | .bool false => "false"
  | .int i => toString i
  | .float neg digits exp => floatText neg digits exp
  | .str s => quote s
  | .arr xs => "[" ++ commaJoin (dumpsList xs) ++ "]"
  | .obj members =>
    let sorted := (dumpsMembers members).insertionSort fun a b => a.1 ≤ b.1
    "\x7b" ++ commaJoin (sorted.map fun kv => quote kv.1 ++ ":" ++ kv.2) ++ "\x7d"

/-- The texts of the elements of an array. -/
def dumpsList : List Json → List String
  | [] => []
  | x :: xs => dumps x :: dumpsList xs

/-- The keys of an object with the texts of their values. -/
def dumpsMembers : List (String × Json) → List (String × String)
  | [] => []
  | (k, x) :: xs => (k, dumps x) :: dumpsMembers xs

end

example : dumps (.obj [("b", .arr [.int (-1), .float false 36 2]), ("a", .str "x\n")]) =
    "\x7b\"a\":\"x\\n\",\"b\":[-1,3600.0]\x7d" := by decide +kernel

end Json

end Workbay

/-!
## Equality of JSON values as Python compares them

Numbers are equal by value, whatever their types, and truth values are the numbers zero and one. The
members of an object are compared in any order.
-/

namespace Workbay.Json

/-- The integer that a float is equal to, if there is one. -/
def integerOfFloat (neg : Bool) (digits : Nat) (exp : Int) : Option Int :=
  (binary64 (decimal exp)).bind fun q =>
    if q.den = 1 then some (if neg then -q.num else q.num) else none
where
  /-- `digits · 10 ^ exp` -/
  decimal : Int → ℚ
    | .ofNat n => digits * 10 ^ n
    | .negSucc n => digits / 10 ^ (n + 1)

mutual

/-- One value for all the values that are equal to it. -/
def canonical : Json → Json
  | .null => .null
  | .bool b => .int (if b then 1 else 0)
  | .int i => .int i
  | .float neg digits exp =>
    match integerOfFloat neg digits exp with
    | some i => .int i
    | none => .float neg digits exp
  | .str s => .str s
  | .arr xs => .arr (canonicalList xs)
  | .obj members => .obj ((canonicalMembers members).insertionSort fun a b => a.1 ≤ b.1)

def canonicalList : List Json → List Json
  | [] => []
  | x :: xs => canonical x :: canonicalList xs

def canonicalMembers : List (String × Json) → List (String × Json)
  | [] => []
  | (key, value) :: members => (key, canonical value) :: canonicalMembers members

end

/-- `a == b` -/
def pyEq (a b : Json) : Bool := decide (a.canonical = b.canonical)

theorem pyEq_iff {a b : Json} : a.pyEq b = true ↔ a.canonical = b.canonical := decide_eq_true_iff

end Workbay.Json

/-!
## Paths into a JSON value, and frames

A path is a list of keys. Two values are in a frame when they differ only at the paths of the frame
and below them: nothing else is added, taken away or replaced, and what is above such a path stays
the object that it was, up to what the frame says about its members.
-/

namespace Workbay.Json

/-- The keys from a value to one that is inside it. -/
abbrev Path := List String

/-- The members of an object. -/
def members? : Json → Option (Dict String Json)
  | .obj members => some members
  | _ => none

/-- What is at a path. -/
def at? : Path → Json → Option Json
  | [], value => some value
  | key :: path, value =>
    (members? value).bind fun members => (members.get? key).bind (at? path)

/-- A value up to the members of an object. -/
def outline : Json → Json
  | .obj _ => .obj []
  | value => value

/-- Neither path leads through the other. -/
def Apart (p q : Path) : Prop := ¬ p <+: q ∧ ¬ q <+: p

instance (p q : Path) : Decidable (Apart p q) := inferInstanceAs (Decidable (_ ∧ _))

theorem Apart.symm {p q : Path} (h : Apart p q) : Apart q p := ⟨h.2, h.1⟩

/-- `w` is `v` except at the paths that are touched, and below them. -/
structure Frame (touched : List Path) (v w : Json) : Prop where
  above : ∀ p, (∀ q ∈ touched, ¬ q <+: p) → (at? p w).map outline = (at? p v).map outline
  apart : ∀ p, (∀ q ∈ touched, Apart q p) → at? p w = at? p v

variable {touched touched' : List Path} {u v w : Json} {key : String}
  {members members' : Dict String Json}

theorem at?_obj_cons (members : Dict String Json) (key : String) (path : Path) :
    at? (key :: path) (.obj members) = (members.get? key).bind (at? path) := rfl

theorem at?_obj_singleton (members : Dict String Json) (key : String) :
    at? [key] (.obj members) = members.get? key := by
  rw [at?_obj_cons]
  cases members.get? key <;> rfl

theorem at?_obj_of_get? {value : Json} (h : members.get? key = some value) (path : Path) :
    at? (key :: path) (.obj members) = at? path value := by
  rw [at?_obj_cons, h, Option.bind_some]

namespace Frame

theorem refl (touched : List Path) (v : Json) : Frame touched v v :=
  ⟨fun _ _ => rfl, fun _ _ => rfl⟩

theorem trans (h : Frame touched u v) (h' : Frame touched v w) : Frame touched u w :=
  ⟨fun p hp => (h'.above p hp).trans (h.above p hp),
    fun p hp => (h'.apart p hp).trans (h.apart p hp)⟩

/-- A frame with shorter paths, and more of them, says less. -/
theorem widen (h : Frame touched v w) (hsub : ∀ q ∈ touched, ∃ q' ∈ touched', q' <+: q) :
    Frame touched' v w := by
  constructor
  · intro p hp
    refine h.above p fun q hq hpre => ?_
    obtain ⟨q', hq', hle⟩ := hsub q hq
    exact hp q' hq' (hle.trans hpre)
  · intro p hp
    refine h.apart p fun q hq => ?_
    obtain ⟨q', hq', hle⟩ := hsub q hq
    refine ⟨fun hpre => (hp q' hq').1 (hle.trans hpre), fun hpre => ?_⟩
    rcases List.prefix_or_prefix_of_prefix hpre hle with hcase | hcase
    · exact (hp q' hq').2 hcase
    · exact (hp q' hq').1 hcase

theorem mono (h : Frame touched v w) (hsub : touched ⊆ touched') : Frame touched' v w :=
  h.widen fun q hq => ⟨q, hsub hq, List.prefix_refl q⟩

theorem isSome_eq (h : Frame touched v w) {p : Path} (hp : ∀ q ∈ touched, ¬ q <+: p) :
    (at? p w).isSome = (at? p v).isSome := by
  have hmap := congrArg Option.isSome (h.above p hp)
  simpa only [Option.isSome_map] using hmap

/-- A change of one member. -/
theorem of_member (h : ∀ k, k ≠ key → members'.get? k = members.get? k) :
    Frame [[key]] (.obj members) (.obj members') := by
  constructor
  · rintro (_ | ⟨k, p⟩) hp
    · rfl
    · have hk : k ≠ key := by
        rintro rfl
        exact hp [k] (List.mem_singleton_self _) (List.cons_prefix_cons.mpr ⟨rfl, List.nil_prefix⟩)
      rw [at?_obj_cons, at?_obj_cons, h k hk]
  · rintro (_ | ⟨k, p⟩) hp
    · exact absurd List.nil_prefix (hp [key] (List.mem_singleton_self _)).2
    · have hk : k ≠ key := by
        rintro rfl
        exact (hp [k] (List.mem_singleton_self _)).1
          (List.cons_prefix_cons.mpr ⟨rfl, List.nil_prefix⟩)
      rw [at?_obj_cons, at?_obj_cons, h k hk]

theorem set (members : Dict String Json) (key : String) (value : Json) :
    Frame [[key]] (.obj members) (.obj (members.set key value)) :=
  of_member fun _ hk => Dict.get?_set_of_ne members value hk

theorem pop (members : Dict String Json) (key : String) :
    Frame [[key]] (.obj members) (.obj (Dict.pop members key)) :=
  of_member fun _ hk => Dict.get?_pop_of_ne members hk

/-- A change inside a member. -/
theorem inside (hv : members.get? key = some v) (h : Frame touched v w) :
    Frame (touched.map (key :: ·)) (.obj members) (.obj (members.set key w)) := by
  have hbelow : ∀ p, at? (key :: p) (.obj members) = at? p v := at?_obj_of_get? hv
  have hbelow' : ∀ p, at? (key :: p) (.obj (members.set key w)) = at? p w :=
    at?_obj_of_get? (Dict.get?_set_self members key w)
  have hother : ∀ k p, k ≠ key →
      at? (k :: p) (.obj (members.set key w)) = at? (k :: p) (.obj members) := by
    intro k p hk
    rw [at?_obj_cons, at?_obj_cons, Dict.get?_set_of_ne members w hk]
  constructor
  · rintro (_ | ⟨k, p⟩) hp
    · rfl
    · by_cases hk : k = key
      · subst hk
        rw [hbelow, hbelow']
        refine h.above p fun q hq hpre => ?_
        exact hp (k :: q) (List.mem_map_of_mem hq) (List.cons_prefix_cons.mpr ⟨rfl, hpre⟩)
      · rw [hother k p hk]
  · rintro (_ | ⟨k, p⟩) hp
    · -- only a frame without paths says something here, namely that nothing changes
      have hnil : ∀ q ∈ touched, Apart q [] := fun q hq =>
        absurd List.nil_prefix (hp (key :: q) (List.mem_map_of_mem hq)).2
      have hw : w = v := Option.some.inj (h.apart [] hnil)
      rw [hw, Dict.set_eq_self hv]
    · by_cases hk : k = key
      · subst hk
        rw [hbelow, hbelow']
        refine h.apart p fun q hq => ?_
        obtain ⟨h1, h2⟩ := hp (k :: q) (List.mem_map_of_mem hq)
        exact ⟨fun hpre => h1 (List.cons_prefix_cons.mpr ⟨rfl, hpre⟩),
          fun hpre => h2 (List.cons_prefix_cons.mpr ⟨rfl, hpre⟩)⟩
      · rw [hother k p hk]

end Frame

end Workbay.Json
