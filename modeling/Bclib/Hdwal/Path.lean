import Bclib.Go.BigText
import Bclib.Go.Json

namespace Bclib.Hdwal

open Data
open Go

/-! Derivation paths and their text. -/

abbrev DerivationPath := List (BitVec 32)

/-- The root relative paths are appended to: `m/44'/60'/0'/0`. -/
def defaultRootDerivationPath : DerivationPath :=
  [0x80000000 + 44, 0x80000000 + 60, 0x80000000 + 0, 0]

inductive PathError where
  | empty
  | ambiguous
  | invalidComponent (component : GoString)
  | outOfRange (bigval : Int) (max : BitVec 32)
  | outOfHardenedRange (bigval : Int) (max : BitVec 32)
  deriving DecidableEq, Repr

def PathError.text : PathError → GoString
  | .empty => str "empty derivation path"
  | .ambiguous => str ("ambiguous path: use 'm/' prefix for absolute paths, " ++
      "or no leading '/' for relative ones")
  | .invalidComponent component => str "invalid component: " ++ component
  | .outOfRange bigval max => str ("component " ++ toString bigval ++
      " out of allowed range [0, " ++ toString max.toNat ++ "]")
  | .outOfHardenedRange bigval max => str ("component " ++ toString bigval ++
      " out of allowed hardened range [0, " ++ toString max.toNat ++ "]")

def parseComponent (component : GoString) : Except PathError (BitVec 32) :=
  let component := trimSpace component
  let (value, component) : BitVec 32 × GoString :=
    if (str "'").isSuffixOf component then (0x80000000, trimSpace component.dropLast)
    else (0, component)
  match setString component with
  | none => .error (.invalidComponent component)
  | some bigval =>
      let max := 0xffffffff - value
      if bigval < 0 ∨ (max.toNat : Int) < bigval then
        if value = 0 then .error (.outOfRange bigval max)
        else .error (.outOfHardenedRange bigval max)
      else .ok (value + BitVec.ofInt 32 bigval)

def parseComponents (result : DerivationPath) : List GoString → Except PathError DerivationPath
  | [] => .ok result
  | component :: rest =>
      match parseComponent component with
      | .error err => .error err
      | .ok value => parseComponents (result ++ [value]) rest

def parseDerivationPath (path : GoString) : Except PathError DerivationPath :=
  match path.splitOn 47 with
  | [] => .error .empty
  | first :: rest =>
      if trimSpace first = [] then .error .ambiguous
      else if trimSpace first = str "m" then
        if rest.length = 0 then .error .empty else parseComponents [] rest
      else parseComponents defaultRootDerivationPath (first :: rest)

example : parseDerivationPath (str "m/44'/60'/0'/0/7") =
    .ok (defaultRootDerivationPath ++ [7]) := by decide +kernel

def componentText (component : BitVec 32) : GoString :=
  if 0x80000000 ≤ component then str "/" ++ itoa (component - 0x80000000).toNat ++ str "'"
  else str "/" ++ itoa component.toNat

def DerivationPath.string (path : DerivationPath) : GoString :=
  path.foldl (fun result component => result ++ componentText component) (str "m")

def DerivationPath.marshalJSON (path : DerivationPath) : GoString :=
  marshalString (DerivationPath.string path)

inductive PathJsonError where
  | json
  | path (err : PathError)
  deriving DecidableEq, Repr

/-- The path afterwards, and the error; a text that is no path leaves none. -/
def DerivationPath.unmarshalJSON (path : DerivationPath) (b : GoString) :
    DerivationPath × Option PathJsonError :=
  match unmarshalString b with
  | none => (path, some .json)
  | some dp =>
      match parseDerivationPath dp with
      | .error err => ([], some (.path err))
      | .ok result => (result, none)

theorem trimSpace_itoa (number : Nat) : trimSpace (itoa number) = itoa number :=
  trimSpace_eq_self
    (fun _ first => isDecimal_visible (isDecimal_of_mem_itoa (List.mem_of_mem_head? first)))
    fun _ last => isDecimal_visible (isDecimal_of_mem_itoa (List.mem_of_mem_getLast? last))

theorem trimSpace_itoa_quote (number : Nat) :
    trimSpace (itoa number ++ str "'") = itoa number ++ str "'" := by
  apply trimSpace_eq_self
  · intro c first
    rw [List.head?_append_of_ne_nil _ (itoa_ne_nil number)] at first
    exact isDecimal_visible (isDecimal_of_mem_itoa (List.mem_of_mem_head? first))
  · intro c last
    rw [show str "'" = [39] from rfl, List.getLast?_append_of_ne_nil _ (List.cons_ne_nil _ _)]
      at last
    obtain rfl : (39 : Byte) = c := Option.some.inj last
    decide

theorem quote_not_suffix_itoa (number : Nat) : ¬(str "'").isSuffixOf (itoa number) = true := by
  intro quoted
  obtain ⟨rest, same⟩ := List.isSuffixOf_iff_suffix.1 quoted
  have member : (39 : Byte) ∈ itoa number := by
    rw [← same]
    exact List.mem_append_right _ List.mem_cons_self
  exact absurd (isDecimal_of_mem_itoa member) (by decide)

theorem parseComponent_itoa {number : Nat} (fits : number < 2 ^ 32) :
    parseComponent (itoa number) = .ok (BitVec.ofNat 32 number) := by
  have inRange : ¬((number : Int) < 0 ∨ ((0xffffffff - 0 : BitVec 32).toNat : Int) < number) := by
    rw [show (0xffffffff - 0 : BitVec 32).toNat = 4294967295 from rfl]
    omega
  simp only [parseComponent, trimSpace_itoa, if_neg (quote_not_suffix_itoa number),
    setString_itoa, if_neg inRange, BitVec.ofInt_natCast]
  exact congrArg Except.ok (by bv_omega)

theorem parseComponent_quoted {number : Nat} (fits : number < 2 ^ 31) :
    parseComponent (itoa number ++ str "'") = .ok (0x80000000 + BitVec.ofNat 32 number) := by
  have quoted : (str "'").isSuffixOf (itoa number ++ str "'") = true :=
    List.isSuffixOf_iff_suffix.2 (List.suffix_append _ _)
  have unquoted : (itoa number ++ str "'").dropLast = itoa number := List.dropLast_concat
  have inRange : ¬((number : Int) < 0 ∨
      ((0xffffffff - 0x80000000 : BitVec 32).toNat : Int) < number) := by
    rw [show (0xffffffff - 0x80000000 : BitVec 32).toNat = 2147483647 from rfl]
    omega
  simp only [parseComponent, trimSpace_itoa_quote, if_pos quoted, unquoted, trimSpace_itoa,
    setString_itoa, if_neg inRange, BitVec.ofInt_natCast]

def spelling (component : BitVec 32) : GoString := (componentText component).drop 1

theorem componentText_eq (component : BitVec 32) :
    componentText component = 47 :: spelling component := by
  rw [spelling, componentText]
  split_ifs <;> rfl

theorem parseComponent_spelling (component : BitVec 32) :
    parseComponent (spelling component) = .ok component := by
  have bound := component.isLt
  rw [spelling, componentText]
  split_ifs with hardened
  · rw [BitVec.le_def] at hardened
    have value : (component - 0x80000000).toNat = component.toNat - 2147483648 := by
      rw [BitVec.toNat_sub_of_le hardened]
      rfl
    have small : (component - 0x80000000).toNat < 2 ^ 31 := by omega
    refine (parseComponent_quoted small).trans ?_
    rw [BitVec.ofNat_toNat, BitVec.setWidth_eq]
    exact congrArg Except.ok (by bv_omega)
  · refine (parseComponent_itoa bound).trans ?_
    rw [BitVec.ofNat_toNat, BitVec.setWidth_eq]

theorem parseComponents_spelling (path result : DerivationPath) :
    parseComponents result (path.map spelling) = .ok (result ++ path) := by
  induction path generalizing result with
  | nil => rw [List.map_nil, parseComponents, List.append_nil]
  | cons component rest ih =>
      rw [List.map_cons, parseComponents, parseComponent_spelling]
      simp only
      rw [ih, List.append_assoc, List.singleton_append]

theorem spelling_plain (component : BitVec 32) {c : Byte} (member : c ∈ spelling component) :
    isDecimal c = true ∨ c = 39 := by
  have quoted : ∀ number, c ∈ itoa number ++ str "'" → isDecimal c = true ∨ c = 39 := by
    intro number inside
    rcases List.mem_append.1 inside with digit | quote
    · exact .inl (isDecimal_of_mem_itoa digit)
    · exact .inr (List.mem_singleton.1 quote)
  rw [spelling, componentText] at member
  split_ifs at member
  · exact quoted _ member
  · exact .inl (isDecimal_of_mem_itoa member)

theorem string_from (path : DerivationPath) (start : GoString) :
    path.foldl (fun result component => result ++ componentText component) start =
      start ++ path.flatMap fun component => 47 :: spelling component := by
  induction path generalizing start with
  | nil => rw [List.foldl_nil, List.flatMap_nil, List.append_nil]
  | cons component rest ih =>
      rw [List.foldl_cons, ih, componentText_eq, List.flatMap_cons, List.append_assoc]

theorem splitOn_components (first : GoString) (path : DerivationPath) (plain : 47 ∉ first) :
    (first ++ path.flatMap fun component => 47 :: spelling component).splitOn 47 =
      first :: path.map spelling := by
  induction path generalizing first with
  | nil => rw [List.flatMap_nil, List.append_nil, List.splitOn_eq_singleton plain, List.map_nil]
  | cons component rest ih =>
      have noSlash : 47 ∉ spelling component := fun member =>
        absurd (spelling_plain component member) (by decide)
      rw [List.flatMap_cons, List.cons_append, List.splitOn_append_cons_self,
        List.splitOn_eq_singleton plain, ih _ noSlash]
      rfl

theorem splitOn_string (path : DerivationPath) :
    (DerivationPath.string path).splitOn 47 = str "m" :: path.map spelling := by
  rw [DerivationPath.string, string_from]
  exact splitOn_components (str "m") path (by decide)

theorem parseDerivationPath_string {path : DerivationPath} (nonempty : path ≠ []) :
    parseDerivationPath (DerivationPath.string path) = .ok path := by
  have some : ¬(path.map spelling).length = 0 := by
    rw [List.length_map]
    exact fun empty => nonempty (List.length_eq_zero_iff.1 empty)
  rw [parseDerivationPath, splitOn_string]
  simp only
  rw [if_neg (by decide), if_pos (by decide), if_neg some, parseComponents_spelling,
    List.nil_append]

theorem string_safe (path : DerivationPath) : ∀ c ∈ DerivationPath.string path, htmlSafe c = true := by
  have safe : ∀ c : Byte, isDecimal c = true ∨ c = 39 → htmlSafe c = true := by decide +kernel
  intro c member
  rw [DerivationPath.string, string_from, List.mem_append, List.mem_flatMap] at member
  rcases member with letter | ⟨component, -, inside⟩
  · obtain rfl := List.mem_singleton.1 letter
    decide
  · rcases List.mem_cons.1 inside with rfl | spelt
    · decide
    · exact safe c (spelling_plain component spelt)

theorem unmarshalJSON_marshalJSON {path : DerivationPath} (nonempty : path ≠ [])
    (old : DerivationPath) :
    DerivationPath.unmarshalJSON old (DerivationPath.marshalJSON path) = (path, none) := by
  rw [DerivationPath.unmarshalJSON, DerivationPath.marshalJSON,
    unmarshalString_marshalString (string_safe path)]
  simp only [parseDerivationPath_string nonempty]

def componentNumber (component : GoString) : Option Int :=
  let component := trimSpace component
  if (str "'").isSuffixOf component then
    (setString (trimSpace component.dropLast)).map (2 ^ 31 + ·)
  else setString component

theorem componentNumber_of_parse {component : GoString} {value : BitVec 32}
    (parsed : parseComponent component = .ok value) :
    componentNumber component = some (value.toNat : Int) := by
  simp only [parseComponent] at parsed
  simp only [componentNumber]
  by_cases quoted : (str "'").isSuffixOf (trimSpace component) = true
  · rw [if_pos quoted] at parsed ⊢
    cases read : setString (trimSpace (trimSpace component).dropLast) with
    | none => simp [read] at parsed
    | some bigval =>
        simp only [read] at parsed
        split_ifs at parsed with outside
        rw [show (0xffffffff - 0x80000000 : BitVec 32).toNat = 2147483647 from rfl] at outside
        obtain ⟨number, rfl⟩ := Int.eq_ofNat_of_zero_le (by omega : 0 ≤ bigval)
        cases parsed
        rw [Option.map_some, BitVec.ofInt_natCast, BitVec.toNat_add,
          BitVec.toNat_ofNat, show (0x80000000 : BitVec 32).toNat = 2147483648 from rfl]
        congr 1
        omega
  · rw [if_neg quoted] at parsed ⊢
    cases read : setString (trimSpace component) with
    | none => simp [read] at parsed
    | some bigval =>
        simp only [read] at parsed
        split_ifs at parsed with outside
        rw [show (0xffffffff - 0 : BitVec 32).toNat = 4294967295 from rfl] at outside
        obtain ⟨number, rfl⟩ := Int.eq_ofNat_of_zero_le (by omega : 0 ≤ bigval)
        cases parsed
        rw [BitVec.ofInt_natCast, BitVec.toNat_add, BitVec.toNat_ofNat,
          show (0 : BitVec 32).toNat = 0 from rfl]
        congr 1
        omega

/-- What the components of a text are appended to, and the components. -/
def componentsOf (path : GoString) : DerivationPath × List GoString :=
  match path.splitOn 47 with
  | [] => ([], [])
  | first :: rest =>
      if trimSpace first = str "m" then ([], rest)
      else (defaultRootDerivationPath, first :: rest)

theorem parseComponents_ok {components : List GoString} {result parsed : DerivationPath}
    (ran : parseComponents result components = .ok parsed) :
    ∃ given, parsed = result ++ given ∧
      List.Forall₂ (fun component (value : BitVec 32) =>
        componentNumber component = some (value.toNat : Int)) components given := by
  induction components generalizing result with
  | nil =>
      cases ran
      exact ⟨[], (List.append_nil _).symm, .nil⟩
  | cons component rest ih =>
      rw [parseComponents] at ran
      cases read : parseComponent component with
      | error err => simp [read] at ran
      | ok value =>
          simp only [read] at ran
          obtain ⟨given, whole, numbers⟩ := ih ran
          refine ⟨value :: given, ?_, .cons (componentNumber_of_parse read) numbers⟩
          rw [whole, List.append_assoc, List.singleton_append]

/-- The path holds the numbers of the text's components, of which there is one at least. -/
def HoldsComponents (text : GoString) (path : DerivationPath) : Prop :=
  ∃ given, path = (componentsOf text).1 ++ given ∧ given ≠ [] ∧
    List.Forall₂ (fun component (value : BitVec 32) =>
      componentNumber component = some (value.toNat : Int)) (componentsOf text).2 given

theorem holdsComponents_of_parse {text : GoString} {path : DerivationPath}
    (parsed : parseDerivationPath text = .ok path) : HoldsComponents text path := by
  rw [parseDerivationPath] at parsed
  rw [HoldsComponents, componentsOf]
  cases fields : text.splitOn 47 with
  | nil => exact absurd fields (List.splitOn_ne_nil _ _)
  | cons first rest =>
      simp only [fields] at parsed ⊢
      split_ifs at parsed with ambiguous absolute empty
      · rw [if_pos absolute]
        obtain ⟨given, whole, numbers⟩ := parseComponents_ok parsed
        refine ⟨given, whole, ?_, numbers⟩
        rintro rfl
        exact empty numbers.length_eq
      · rw [if_neg absolute]
        obtain ⟨given, whole, numbers⟩ := parseComponents_ok parsed
        refine ⟨given, whole, ?_, numbers⟩
        rintro rfl
        cases numbers

/-- Paths read back from their text and from JSON, and an accepted text gives a path that holds
what the text says and reads back. -/
structure ReadsBack (path : DerivationPath) (text : GoString) : Prop where
  printed : path ≠ [] → parseDerivationPath (DerivationPath.string path) = .ok path
  json : path ≠ [] → ∀ old,
    DerivationPath.unmarshalJSON old (DerivationPath.marshalJSON path) = (path, none)
  accepted : ∀ result, parseDerivationPath text = .ok result →
    HoldsComponents text result ∧
      parseDerivationPath (DerivationPath.string result) = .ok result

theorem derivationPath_roundTrips (path : DerivationPath) (text : GoString) :
    ReadsBack path text := by
  refine ⟨parseDerivationPath_string, unmarshalJSON_marshalJSON, fun result parsed => ?_⟩
  have holds := holdsComponents_of_parse parsed
  refine ⟨holds, parseDerivationPath_string ?_⟩
  obtain ⟨given, rfl, nonempty, -⟩ := holds
  exact List.append_ne_nil_of_right_ne_nil _ nonempty

theorem derivationPath_roundTrips_relative :
    parseDerivationPath (str " 0x10' / 3") = .ok (defaultRootDerivationPath ++ [0x80000010, 3]) ∧
      parseDerivationPath (str "m/44'/60'/0'/0/16'/3") =
        .ok (defaultRootDerivationPath ++ [0x80000010, 3]) := by
  have relative : parseDerivationPath (str " 0x10' / 3") =
      .ok (defaultRootDerivationPath ++ [0x80000010, 3]) := by decide +kernel
  have printed : DerivationPath.string (defaultRootDerivationPath ++ [0x80000010, 3]) =
      str "m/44'/60'/0'/0/16'/3" := by decide +kernel
  have again := ((derivationPath_roundTrips [] (str " 0x10' / 3")).accepted _ relative).2
  rw [printed] at again
  exact ⟨relative, again⟩

end Bclib.Hdwal
