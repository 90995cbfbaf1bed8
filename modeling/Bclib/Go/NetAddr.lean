import Bclib.Data.Blocks
import Bclib.Go.Decimal
import Bclib.Go.Hex

namespace Bclib.Go

open Data

/-! Addresses of TCP connections, and their texts as `net` writes them. -/

inductive IP where
  | v4 (bytes : Block Byte 4)
  | v6 (bytes : Block Byte 16)
  deriving DecidableEq, Repr

def colon : Byte := 58

namespace IP

def v4InV6Prefix : List Byte := [0, 0, 0, 0, 0, 0, 0, 0, 0, 0, 0xff, 0xff]

def to16 : IP → List Byte
  | v4 bytes => v4InV6Prefix ++ bytes.1
  | v6 bytes => bytes.1

def to4 : IP → Option (List Byte)
  | v4 bytes => some bytes.1
  | v6 bytes => if bytes.1.take 12 = v4InV6Prefix then some (bytes.1.drop 12) else none

theorem length_to16 (ip : IP) : ip.to16.length = 16 := by
  cases ip with
  | v4 bytes => rw [to16, List.length_append, bytes.2]; rfl
  | v6 bytes => exact bytes.2

theorem to16_of_to4 {ip : IP} {bytes : List Byte} (some : ip.to4 = some bytes) :
    ip.to16 = v4InV6Prefix ++ bytes := by
  cases ip with
  | v4 four => rw [to16, Option.some.inj some]
  | v6 sixteen =>
      rw [to4] at some
      split_ifs at some with mapped
      rw [to16, ← Option.some.inj some, ← mapped, List.take_append_drop]

def groupsOf : List Byte → List Nat
  | high :: low :: rest => (high.toNat * 256 + low.toNat) :: groupsOf rest
  | _ => []

def appendHex (i : Nat) : GoString :=
  if i = 0 then [48]
  else (List.range 8).reverse.filterMap fun j =>
    if i >>> (j * 4) > 0 then some (hextable.getD ((i >>> (j * 4)) % 16) 0) else none

def zeroRun (groups : List Nat) : Nat := (groups.takeWhile (· = 0)).length

def longerRun (groups : List Nat) (best : Nat × Nat) (i : Nat) : Nat × Nat :=
  if best.2 < zeroRun (groups.drop i) then (i, zeroRun (groups.drop i)) else best

/-- Where the longest run of zeros begins, and how many groups it has; the first one of those
that are as long. -/
def longestZeros (groups : List Nat) : Nat × Nat :=
  (List.range groups.length).foldl (longerRun groups) (0, 0)

def joinGroups (groups : List Nat) : GoString := [colon].intercalate (groups.map appendHex)

/-- The groups in hexadecimal; `::` stands for a run of zeros, and not for a single one. -/
def groupsText (groups : List Nat) : GoString :=
  if (longestZeros groups).2 ≤ 1 then joinGroups groups
  else
    joinGroups (groups.take (longestZeros groups).1) ++ colon :: colon ::
      joinGroups (groups.drop ((longestZeros groups).1 + (longestZeros groups).2))

def dottedText (bytes : List Byte) : GoString := [46].intercalate (bytes.map fun b => itoa b.toNat)

/-- `IP.String` -/
def text (ip : IP) : GoString :=
  match ip.to4 with
  | some p4 => dottedText p4
  | none => groupsText (groupsOf ip.to16)

end IP

/-- `JoinHostPort`: a host with colons is put in brackets. -/
def joinHostPort (host port : GoString) : GoString :=
  if host.contains colon then 91 :: host ++ [93, colon] ++ port else host ++ colon :: port

theorem joinHostPort_plain {host : GoString} (plain : colon ∉ host) (port : GoString) :
    joinHostPort host port = host ++ colon :: port :=
  if_neg fun inside => plain (List.contains_iff_mem.1 inside)

theorem joinHostPort_bracket {host : GoString} (inside : colon ∈ host) (port : GoString) :
    joinHostPort host port = 91 :: host ++ [93, colon] ++ port :=
  if_pos (List.contains_iff_mem.2 inside)

structure TCPAddr where
  ip : IP
  port : Nat
  zone : GoString
  deriving DecidableEq, Repr

namespace TCPAddr

def host (addr : TCPAddr) : GoString :=
  if addr.zone ≠ [] then addr.ip.text ++ 37 :: addr.zone else addr.ip.text

/-- `TCPAddr.String` -/
def text (addr : TCPAddr) : GoString := joinHostPort addr.host (itoa addr.port)

/-- The same address, `net.IP.Equal`: an IPv4 address is the IPv6 address it is mapped to. -/
def SameIP (first second : TCPAddr) : Prop := first.ip.to16 = second.ip.to16

instance (first second : TCPAddr) : Decidable (SameIP first second) :=
  inferInstanceAs (Decidable (_ = _))

def Dotted (addr : TCPAddr) : Prop := addr.ip.to4 ≠ none ∧ addr.zone = []

instance : DecidablePred Dotted := fun _ => inferInstanceAs (Decidable (_ ∧ _))

end TCPAddr

example : TCPAddr.text ⟨.v6 ⟨[0, 0, 0, 0, 0, 0, 0, 0, 0, 0, 255, 255, 10, 0, 0, 7], rfl⟩, 80, []⟩ =
    str "10.0.0.7:80" := by decide +kernel

theorem splitOn_cons_of_notMem {separator : Byte} {front : GoString} (whole : separator ∉ front)
    (rest : GoString) :
    (front ++ separator :: rest).splitOn separator = front :: rest.splitOn separator := by
  rw [List.splitOn_append_cons_self, List.splitOn_eq_singleton whole]
  rfl

namespace IP

theorem colon_notMem_appendHex (i : Nat) : colon ∉ appendHex i := by
  have digits : ∀ digit < 16, hextable.getD digit 0 ≠ colon := by decide
  rw [appendHex]
  split_ifs
  · decide
  · intro member
    obtain ⟨j, -, digit⟩ := List.mem_filterMap.1 member
    split_ifs at digit
    exact digits _ (Nat.mod_lt _ (by decide)) (Option.some.inj digit)

theorem joinGroups_cons (group second : Nat) (rest : List Nat) :
    joinGroups (group :: second :: rest) =
      appendHex group ++ colon :: joinGroups (second :: rest) := by
  rw [joinGroups, joinGroups, List.map_cons, List.map_cons,
    List.intercalate_cons_of_ne_nil (List.cons_ne_nil _ _), List.append_assoc]
  rfl

theorem longestZeros_run (groups : List Nat) :
    (longestZeros groups).2 = 0 ∨
      (longestZeros groups).2 = zeroRun (groups.drop (longestZeros groups).1) := by
  refine List.foldlRecOn (motive := fun best : Nat × Nat => best.2 = 0 ∨
    best.2 = zeroRun (groups.drop best.1)) _ _ (.inl rfl) fun best fits i _ => ?_
  rw [longerRun]
  split_ifs
  · exact .inr rfl
  · exact fits

theorem groupsText_eq (group second : Nat) (rest : List Nat) :
    ∃ lead more, groupsText (group :: second :: rest) = lead ++ colon :: more ∧
      colon ∉ lead ∧ (group ≠ 0 → lead = appendHex group) := by
  have whole := colon_notMem_appendHex group
  rw [groupsText]
  split_ifs with single
  · exact ⟨_, _, joinGroups_cons group second rest, whole, fun _ => rfl⟩
  have run := (longestZeros_run (group :: second :: rest)).resolve_left (by omega)
  cases start : (longestZeros (group :: second :: rest)).1 with
  | zero =>
      rw [start] at run
      refine ⟨[], _, rfl, List.not_mem_nil, fun nonzero => ?_⟩
      have none : zeroRun (group :: second :: rest) = 0 := by
        rw [zeroRun, List.takeWhile_cons_of_neg (by simpa using nonzero)]
        rfl
      rw [List.drop_zero, none] at run
      omega
  | succ before =>
      cases before with
      | zero =>
          refine ⟨appendHex group, _, congrArg (· ++ _) ?_, whole, fun _ => rfl⟩
          exact List.intercalate_singleton ..
      | succ before =>
          rw [List.take_succ_cons, List.take_succ_cons, joinGroups_cons, List.append_assoc]
          exact ⟨appendHex group, _, rfl, whole, fun _ => rfl⟩

theorem exists_groups (ip : IP) :
    ∃ group second rest, groupsOf ip.to16 = group :: second :: rest := by
  obtain ⟨a, b, c, d, rest, bytes⟩ : ∃ a b c d rest, ip.to16 = a :: b :: c :: d :: rest := by
    have size := ip.length_to16
    revert size
    rcases ip.to16 with _ | ⟨a, _ | ⟨b, _ | ⟨c, _ | ⟨d, rest⟩⟩⟩⟩ <;> simp
  rw [bytes]
  exact ⟨_, _, _, rfl⟩

theorem mem_dottedText {bytes : List Byte} {char : Byte} (member : char ∈ dottedText bytes) :
    char = 46 ∨ isDecimal char = true := by
  induction bytes with
  | nil => cases member
  | cons first rest ih =>
      cases rest with
      | nil =>
          rw [dottedText, List.map_cons, List.map_nil, List.intercalate_singleton] at member
          exact .inr (isDecimal_of_mem_itoa member)
      | cons second rest =>
          rw [dottedText, List.map_cons, List.intercalate_cons_of_ne_nil (by simp),
            List.mem_append, List.mem_append, List.mem_singleton] at member
          rcases member with (member | dot) | member
          · exact .inr (isDecimal_of_mem_itoa member)
          · exact .inl dot
          · exact ih member

theorem dottedText_ne_nil {bytes : List Byte} (some : bytes ≠ []) : dottedText bytes ≠ [] := by
  obtain ⟨first, rest, rfl⟩ := List.exists_cons_of_ne_nil some
  rw [dottedText, List.map_cons]
  cases rest with
  | nil =>
      rw [List.map_nil, List.intercalate_singleton]
      exact itoa_ne_nil _
  | cons second rest =>
      rw [List.intercalate_cons_of_ne_nil (by simp), List.append_assoc]
      exact List.append_ne_nil_of_left_ne_nil (itoa_ne_nil _) _

theorem to4_ne_nil {ip : IP} {bytes : List Byte} (some : ip.to4 = some bytes) : bytes ≠ [] := by
  rintro rfl
  have size := ip.length_to16
  rw [to16_of_to4 some] at size
  cases size

theorem text_of_to4 {ip : IP} {bytes : List Byte} (some : ip.to4 = some bytes) :
    ip.text = dottedText bytes := by rw [text, some]

theorem text_of_groups {ip : IP} (groups : ip.to4 = none) :
    ∃ group rest lead more, groupsOf ip.to16 = group :: rest ∧
      ip.text = lead ++ colon :: more ∧ colon ∉ lead ∧ (group ≠ 0 → lead = appendHex group) := by
  obtain ⟨group, second, rest, split⟩ := ip.exists_groups
  obtain ⟨lead, more, text, facts⟩ := groupsText_eq group second rest
  refine ⟨group, second :: rest, lead, more, split, ?_, facts⟩
  rw [IP.text, groups, split]
  exact text

theorem text_ne_nil (ip : IP) : ip.text ≠ [] := by
  cases four : ip.to4 with
  | some bytes =>
      rw [text_of_to4 four]
      exact dottedText_ne_nil (to4_ne_nil four)
  | none =>
      obtain ⟨_, _, lead, more, -, text, -⟩ := text_of_groups four
      rw [text]
      exact List.append_ne_nil_of_right_ne_nil _ (List.cons_ne_nil _ _)

theorem dottedText_injective {first second : List Byte} (some : first ≠ [])
    (other : second ≠ []) (same : dottedText first = dottedText second) : first = second := by
  have pieces : ∀ bytes : List Byte, bytes ≠ [] →
      (dottedText bytes).splitOn 46 = bytes.map fun b => itoa b.toNat := by
    intro bytes some
    refine List.splitOn_intercalate 46 (fun piece member => ?_) (by simpa using some)
    obtain ⟨byte, -, rfl⟩ := List.mem_map.1 member
    intro dot
    exact absurd (isDecimal_of_mem_itoa dot) (by decide)
  have injective : Function.Injective fun b : Byte => itoa b.toNat := by
    intro left right same
    have numbers := congrArg decimalNumber same
    rw [decimalNumber_itoa, decimalNumber_itoa] at numbers
    exact BitVec.eq_of_toNat_eq numbers
  have split := congrArg (List.splitOn 46) same
  rw [pieces first some, pieces second other] at split
  exact List.map_injective_iff.2 injective split

end IP

end Bclib.Go
