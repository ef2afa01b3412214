import Mathlib.Data.FinEnum
import Ipxe.Model.Socket
import Ipxe.Analysis.IntegerFormatting

/-!
# IPv6 addresses as text

An empty piece between colons that is not the first stands for the zeros that are left out.  The
formatter writes the text that is canonical.
-/

namespace Ipxe.Analysis

open Library Model Interface
open List hiding Vector

/-- Groups with a colon between any two of them. -/
def colons (groups : List Bytes) : Bytes := [0x3a].intercalate groups

def hexDigit (char : UInt8) : Option ℕ :=
  if 0x30 ≤ char ∧ char ≤ 0x39 then some (char.toNat - 0x30)
  else if 0x41 ≤ char ∧ char ≤ 0x46 then some (char.toNat - 0x37)
  else if 0x61 ≤ char ∧ char ≤ 0x66 then some (char.toNat - 0x57)
  else none

/-- One to four hexadecimal digits. -/
def IsGroup (group : Bytes) : Prop :=
  (∀ char ∈ group, (hexDigit char).isSome) ∧ group ≠ [] ∧ group.length ≤ 4

instance : DecidablePred IsGroup := fun _ => inferInstanceAs (Decidable (_ ∧ _ ∧ _))

def groupWord (group : Bytes) : ℕ := numeralValue 16 (group.filterMap hexDigit)

def addressBytes (words : List ℕ) : Bytes :=
  words.flatMap fun word => [UInt8.ofNat (word / 256), UInt8.ofNat word]

/-- The hexadecimal forms of an address: eight groups, or fewer with `::` for the zeros between
them. -/
inductive Denotes : Bytes → Bytes → Prop
  | full {groups : List Bytes} (hgroups : ∀ group ∈ groups, IsGroup group)
      (hlength : groups.length = 8) : Denotes (colons groups) (addressBytes (groups.map groupWord))
  | compressed {left right : List Bytes} (hleft : ∀ group ∈ left, IsGroup group)
      (hright : ∀ group ∈ right, IsGroup group) (hlength : left.length + right.length ≤ 7) :
      Denotes (colons left ++ [0x3a, 0x3a] ++ colons right)
        (addressBytes (left.map groupWord ++
          List.replicate (8 - (left.length + right.length)) 0 ++ right.map groupWord))

/-! ## Pieces -/

variable (ulongBits : ℕ)

theorem strtoulDigits_suffix (base value : ℕ) (string : Bytes) :
    (strtoulDigits ulongBits base value string).2 <:+ string := by
  fun_induction strtoulDigits ulongBits base value string with
  | case1 value => exact suffix_rfl
  | case2 value digit rest h => exact suffix_rfl
  | case3 value digit rest h ih => exact ih.trans (suffix_cons _ _)

theorem strtoul_suffix (string : Bytes) : (strtoul ulongBits string 16).2 <:+ string := by
  have hspaces := dropWhile_suffix isspace (l := string)
  unfold strtoul strtoulBase
  simp only [ne_eq, OfNat.ofNat_ne_zero, not_false_eq_true]
  split_ifs
  all_goals refine (strtoulDigits_suffix _ _ _ _).trans ?_
  all_goals first | exact hspaces | exact (tail_suffix _).trans hspaces

theorem strtoulDigits_colon (value : ℕ) (piece rest : Bytes) :
    strtoulDigits ulongBits 16 value (piece ++ 0x3a :: rest) =
      ((strtoulDigits ulongBits 16 value piece).1,
        (strtoulDigits ulongBits 16 value piece).2 ++ 0x3a :: rest) := by
  fun_induction strtoulDigits ulongBits 16 value piece with
  | case1 value => rfl
  | case2 value digit piece h => simp only [cons_append, strtoulDigits, if_pos h]
  | case3 value digit piece h ih =>
    rw [cons_append, strtoulDigits, if_neg h]
    exact ih

/-- A number ends at a colon, wherever that is. -/
theorem strtoul_colon (piece rest : Bytes) :
    strtoul ulongBits (piece ++ 0x3a :: rest) 16 =
      ((strtoul ulongBits piece 16).1, (strtoul ulongBits piece 16).2 ++ 0x3a :: rest) := by
  have hspaces : (piece ++ 0x3a :: rest).dropWhile isspace =
      piece.dropWhile isspace ++ 0x3a :: rest := by
    induction piece with
    | nil => rfl
    | cons char piece ih =>
      rw [cons_append, dropWhile_cons, dropWhile_cons, ih]
      split <;> rfl
  unfold strtoul strtoulBase
  rw [hspaces]
  cases piece.dropWhile isspace with
  | nil => rfl
  | cons char piece =>
    have hdigits := strtoulDigits_colon ulongBits 0 (char :: piece) rest
    by_cases hminus : char = 0x2d
    · simp [hminus, strtoulDigits_colon]
    · by_cases hplus : char = 0x2b
      · simp [hplus, strtoulDigits_colon]
      · simpa [hminus, hplus] using hdigits

section

variable {env : SocketEnv} {piece : Bytes} {pieces : List Bytes}

/-- A piece is read to its end, as a word. -/
def ReadsPiece (env : SocketEnv) (piece : Bytes) : Prop :=
  (strtoul env.ulongBits piece 16).1 ≤ 0xffff ∧ (strtoul env.ulongBits piece 16).2 = []

instance : DecidablePred (ReadsPiece env) := fun _ => inferInstanceAs (Decidable (_ ∧ _))

def readWord (env : SocketEnv) (piece : Bytes) : ℕ := (strtoul env.ulongBits piece 16).1

theorem ReadsPiece.noColon (h : ReadsPiece env piece) : 0x3a ∉ piece := by
  intro hmem
  obtain ⟨before, behind, rfl⟩ := append_of_mem hmem
  have hwhole := h.2
  rw [strtoul_colon] at hwhole
  exact cons_ne_nil _ _ (append_eq_nil_iff.1 hwhole).2

theorem strtoul_nil (ulongBits : ℕ) : strtoul ulongBits [] 16 = (0, []) := by
  simp [strtoul, strtoulBase, strtoulDigits]

theorem reads_nil : ReadsPiece env [] := by
  exact ⟨Nat.zero_le _, rfl⟩

theorem separator_ne (hpiece : 0x3a ∉ piece) {char : UInt8} {more : Bytes}
    (h : (strtoul env.ulongBits piece 16).2 = char :: more) : char ≠ 0x3a :=
  ne_of_mem_of_not_mem ((strtoul_suffix _ piece).subset (h ▸ mem_cons_self)) hpiece

theorem inet6AtonLoop_last (hpiece : 0x3a ∉ piece) (room : ℕ) (first : Bool) (words : List ℕ)
    (pad : Option ℕ) :
    inet6AtonLoop env (room + 1) first words pad piece =
      if ReadsPiece env piece then some (words ++ [readWord env piece], pad) else none := by
  simp only [inet6AtonLoop, readWord]
  by_cases hword : (strtoul env.ulongBits piece 16).1 ≤ 0xffff
  · cases hend : (strtoul env.ulongBits piece 16).2 with
    | nil => simp [ReadsPiece, hword, hend]
    | cons char more => simp [ReadsPiece, hend, separator_ne hpiece hend]
  · simp [ReadsPiece, hword]

theorem inet6AtonLoop_more (hpiece : 0x3a ∉ piece) (room : ℕ) (first : Bool) (words : List ℕ)
    (pad : Option ℕ) (rest : Bytes) :
    inet6AtonLoop env (room + 1) first words pad (piece ++ 0x3a :: rest) =
      if ReadsPiece env piece ∧ ¬((piece = [] ∧ first = false) ∧ pad.isSome) then
        inet6AtonLoop env room false (words ++ [readWord env piece])
          (if piece = [] ∧ first = false then some (words.length + 1) else pad) rest
      else none := by
  simp only [inet6AtonLoop, strtoul_colon, readWord]
  by_cases hword : (strtoul env.ulongBits piece 16).1 ≤ 0xffff
  · cases hend : (strtoul env.ulongBits piece 16).2 with
    | nil =>
      by_cases hempty : piece = []
      · cases first <;> cases pad <;> simp_all [ReadsPiece]
      · simp [ReadsPiece, hword, hend, hempty]
    | cons char more => simp [ReadsPiece, hend, separator_ne hpiece hend]
  · simp [ReadsPiece, hword]

theorem colons_cons (piece : Bytes) (h : pieces ≠ []) :
    colons (piece :: pieces) = piece ++ 0x3a :: colons pieces := by
  rw [colons, intercalate_cons_of_ne_nil h, append_assoc]
  rfl

theorem inet6AtonLoop_colons (hcolon : ∀ piece ∈ pieces, 0x3a ∉ piece) (hne : pieces ≠ [])
    (room : ℕ) (words : List ℕ) (pad : Option ℕ) :
    inet6AtonLoop env room false words pad (colons pieces) =
      if (∀ piece ∈ pieces, ReadsPiece env piece) ∧ pieces.length ≤ room ∧
        pieces.dropLast.count [] + pad.toList.length ≤ 1 then
        some (words ++ pieces.map (readWord env), if pieces.dropLast.count [] = 0 then pad
          else some (words.length + pieces.idxOf [] + 1))
      else none := by
  induction pieces generalizing room words pad with
  | nil => exact absurd rfl hne
  | cons piece pieces ih =>
    obtain ⟨hpiece, hrest⟩ := forall_mem_cons.1 hcolon
    cases room with
    | zero => simp [inet6AtonLoop]
    | succ room =>
      by_cases hlast : pieces = []
      · have hpad : pad.toList.length ≤ 1 := by cases pad <;> simp
        subst hlast
        rw [colons, intercalate_singleton, inet6AtonLoop_last hpiece]
        simp [hpad]
      · rw [colons_cons _ hlast, inet6AtonLoop_more hpiece, ih hrest hlast,
          dropLast_cons_of_ne_nil hlast]
        by_cases hempty : piece = []
        · subst hempty
          cases pad with
          | some gap => simp
          | none =>
            by_cases hcount : pieces.dropLast.count [] = 0 <;> simp [reads_nil, hcount]
        · have hidx : words.length + (pieces.idxOf [] + 1) + 1 =
              words.length + 1 + pieces.idxOf [] + 1 := by omega
          rw [count_cons_of_ne hempty, idxOf_cons_ne _ hempty, hidx]
          by_cases hreads : ReadsPiece env piece <;> simp [hempty, hreads]

/-- What the parser takes: at most eight pieces that it can read, with one empty piece between
the first and the last, or with eight if there is none. -/
structure Taken (env : SocketEnv) (pieces : List Bytes) : Prop where
  reads : ∀ piece ∈ pieces, ReadsPiece env piece
  length : pieces.length ≤ 8
  inner : pieces.tail.dropLast.count [] = 1 ∨ pieces.tail.dropLast.count [] = 0 ∧ pieces.length = 8

/-- The address that is made of them, with the padding behind the empty piece. -/
def takenWords (env : SocketEnv) (pieces : List Bytes) : List ℕ :=
  let words := pieces.map (readWord env)
  let pad := pieces.tail.idxOf [] + 2
  if pieces.tail.dropLast.count [] = 0 then words
  else words.take pad ++ List.replicate (8 - words.length) 0 ++ words.drop pad

theorem Taken.ne_nil (h : Taken env pieces) : pieces ≠ [] := by
  rintro rfl
  exact absurd h.inner (by decide)

theorem inet6Aton_colons (hcolon : ∀ piece ∈ pieces, 0x3a ∉ piece) (hne : pieces ≠ [])
    (address : Bytes) :
    inet6Aton env (colons pieces) = some address ↔
      Taken env pieces ∧ address = addressBytes (takenWords env pieces) := by
  obtain ⟨piece, pieces, rfl⟩ := exists_cons_of_ne_nil hne
  obtain ⟨hpiece, hrest⟩ := forall_mem_cons.1 hcolon
  have hloop : inet6AtonLoop env 8 true [] none (colons (piece :: pieces)) =
      if (ReadsPiece env piece ∧ ∀ other ∈ pieces, ReadsPiece env other) ∧ pieces.length ≤ 7 ∧
        pieces.dropLast.count [] ≤ 1 then
        some ((piece :: pieces).map (readWord env),
          if pieces.dropLast.count [] = 0 then none else some (pieces.idxOf [] + 2))
      else none := by
    by_cases hlast : pieces = []
    · subst hlast
      rw [colons, intercalate_singleton, inet6AtonLoop_last hpiece]
      simp
    · rw [colons_cons _ hlast, inet6AtonLoop_more hpiece, inet6AtonLoop_colons hrest hlast]
      by_cases hreads : ReadsPiece env piece <;> simp [hreads, add_comm 1, add_assoc]
  have htaken : Taken env (piece :: pieces) ↔
      ((ReadsPiece env piece ∧ ∀ other ∈ pieces, ReadsPiece env other) ∧ pieces.length ≤ 7 ∧
        pieces.dropLast.count [] ≤ 1) ∧ (pieces.dropLast.count [] = 0 → pieces.length = 7) := by
    rw [← forall_mem_cons]
    constructor
    · rintro ⟨hreads, hlength, hinner⟩
      simp only [tail_cons, length_cons] at hlength hinner
      exact ⟨⟨hreads, by omega, by omega⟩, by omega⟩
    · rintro ⟨⟨hreads, hlength, hone⟩, hfull⟩
      refine ⟨hreads, ?_, ?_⟩ <;> simp only [tail_cons, length_cons] <;> omega
  unfold inet6Aton takenWords
  rw [hloop, htaken]
  by_cases hcond : (ReadsPiece env piece ∧ ∀ other ∈ pieces, ReadsPiece env other) ∧
      pieces.length ≤ 7 ∧ pieces.dropLast.count [] ≤ 1
  · rw [if_pos hcond, and_iff_right hcond]
    by_cases hzero : pieces.dropLast.count [] = 0
    · by_cases hfull : pieces.length = 7 <;> simp [hzero, hfull, addressBytes, eq_comm]
    · simp [hzero, addressBytes, eq_comm]
  · rw [if_neg hcond]
    simp only [reduceCtorEq, hcond, false_and]

theorem hexDigit_spec : ∀ char : UInt8, (hexDigit char).isSome →
    hexDigit char = some (digitValue char) ∧ digitValue char < 16 ∧ isspace char = false ∧
      char ≠ 0x2d ∧ char ≠ 0x2b := by
  decide +kernel

theorem strtoulDigits_group {ulongBits : ℕ} {group : Bytes}
    (hdigits : ∀ char ∈ group, (hexDigit char).isSome) {value : ℕ}
    (hvalue : (value + 1) * 16 ^ group.length ≤ 2 ^ ulongBits) :
    strtoulDigits ulongBits 16 value group =
      ((group.filterMap hexDigit).foldl (fun value digit => value * 16 + digit) value, []) ∧
    (group.filterMap hexDigit).foldl (fun value digit => value * 16 + digit) value <
      (value + 1) * 16 ^ group.length := by
  induction group generalizing value with
  | nil => exact ⟨rfl, by simp⟩
  | cons char group ih =>
    obtain ⟨hchar, hrest⟩ := forall_mem_cons.1 hdigits
    obtain ⟨hdigit, hless, -⟩ := hexDigit_spec char hchar
    generalize hread : digitValue char = digit at hdigit hless
    have hnext : (value * 16 + digit + 1) * 16 ^ group.length ≤
        (value + 1) * 16 ^ (char :: group).length := by
      rw [length_cons, pow_succ', ← mul_assoc]
      exact Nat.mul_le_mul_right _ (by omega)
    have hsmall : value * 16 + digit < 2 ^ ulongBits :=
      (Nat.le_mul_of_pos_right _ (by positivity)).trans (hnext.trans hvalue)
    obtain ⟨hvalue', hbound⟩ := ih hrest (hnext.trans hvalue)
    rw [strtoulDigits, hread, if_neg (by omega), Nat.mod_eq_of_lt hsmall, hvalue',
      filterMap_cons_some hdigit]
    exact ⟨rfl, hbound.trans_le hnext⟩

/-- A group is read as the word that it stands for. -/
theorem IsGroup.reads (henv : 16 ≤ env.ulongBits) {group : Bytes} (h : IsGroup group) :
    ReadsPiece env group ∧ readWord env group = groupWord group := by
  obtain ⟨hdigits, hne, hlength⟩ := h
  have hroom : 16 ^ group.length ≤ 2 ^ 16 :=
    (Nat.pow_le_pow_right (by decide) hlength).trans (by decide)
  have hbits : 2 ^ 16 ≤ 2 ^ env.ulongBits := Nat.pow_le_pow_right (by decide) henv
  obtain ⟨hvalue, hless⟩ := @strtoulDigits_group env.ulongBits group hdigits 0 (by omega)
  have hread : strtoul env.ulongBits group 16 = (groupWord group, []) := by
    rw [groupWord, numeralValue, ← hvalue]
    cases group with
    | nil => exact absurd rfl hne
    | cons char group =>
      obtain ⟨-, -, hspace, hminus, hplus⟩ := hexDigit_spec char (hdigits char mem_cons_self)
      simp [strtoul, strtoulBase, hspace, hminus, hplus]
  rw [ReadsPiece, readWord, hread]
  refine ⟨⟨?_, rfl⟩, rfl⟩
  rw [groupWord, numeralValue]
  omega

theorem IsGroup.noColon {group : Bytes} (h : IsGroup group) : 0x3a ∉ group :=
  fun hmem => absurd (h.1 0x3a hmem) (by decide)

/-! ## The forms as pieces -/

def sidePieces (groups : List Bytes) : List Bytes :=
  if groups = [] then [[]] else groups

/-- What the pieces of a side are: its groups, or one empty piece, which is one of the zeros
between the sides. -/
structure IsSide (env : SocketEnv) (groups pieces : List Bytes) : Prop where
  ne_nil : pieces ≠ []
  length : pieces.length = max 1 groups.length
  text : colons pieces = colons groups
  reads : ∀ piece ∈ pieces, ReadsPiece env piece
  inner : [] ∉ pieces.tail ∧ [] ∉ pieces.dropLast
  words : pieces.map (readWord env) =
    groups.map groupWord ++ List.replicate (pieces.length - groups.length) 0
  words' : pieces.map (readWord env) =
    List.replicate (pieces.length - groups.length) 0 ++ groups.map groupWord

variable {groups : List Bytes}

theorem notMem_groups (h : ∀ group ∈ groups, IsGroup group) :
    [] ∉ groups := fun hmem => (h [] hmem).2.1 rfl

theorem map_readWord (henv : 16 ≤ env.ulongBits)
    (h : ∀ group ∈ groups, IsGroup group) : groups.map (readWord env) = groups.map groupWord :=
  map_congr_left fun group hmem => ((h group hmem).reads henv).2

theorem isSide_sidePieces (henv : 16 ≤ env.ulongBits)
    (h : ∀ group ∈ groups, IsGroup group) : IsSide env groups (sidePieces groups) := by
  unfold sidePieces
  split_ifs with hempty
  · subst hempty
    have hzero : readWord env [] = 0 := congrArg Prod.fst (strtoul_nil env.ulongBits)
    exact ⟨by simp, by simp, rfl, by simpa using reads_nil, by simp, by simp [hzero],
      by simp [hzero]⟩
  · have hpos := length_pos_of_ne_nil hempty
    exact ⟨hempty, by omega, rfl, fun piece hmem => ((h piece hmem).reads henv).1,
      ⟨fun hmem => notMem_groups h (mem_of_mem_tail hmem),
        fun hmem => notMem_groups h (mem_of_mem_dropLast hmem)⟩,
      by simp [map_readWord henv h], by simp [map_readWord henv h]⟩

theorem colons_append {left right : List Bytes} (hleft : left ≠ []) (hright : right ≠ []) :
    colons (left ++ right) = colons left ++ 0x3a :: colons right := by
  induction left with
  | nil => exact absurd rfl hleft
  | cons piece left ih =>
    rw [cons_append, colons_cons _ (append_ne_nil_of_right_ne_nil _ hright)]
    by_cases hlast : left = []
    · rw [hlast, nil_append, colons, colons, intercalate_singleton]
    · rw [ih hlast, colons_cons _ hlast, append_assoc, cons_append]

theorem exists_colons (string : Bytes) :
    ∃ pieces, pieces ≠ [] ∧ (∀ piece ∈ pieces, 0x3a ∉ piece) ∧ string = colons pieces := by
  induction string with
  | nil => exact ⟨[[]], cons_ne_nil _ _, by simp, rfl⟩
  | cons char string ih =>
    obtain ⟨pieces, hne, hcolon, rfl⟩ := ih
    by_cases hchar : char = 0x3a
    · refine ⟨[] :: pieces, cons_ne_nil _ _, forall_mem_cons.2 ⟨by simp, hcolon⟩, ?_⟩
      rw [colons_cons _ hne, hchar, nil_append]
    · obtain ⟨piece, pieces, rfl⟩ := exists_cons_of_ne_nil hne
      obtain ⟨hpiece, hrest⟩ := forall_mem_cons.1 hcolon
      refine ⟨(char :: piece) :: pieces, cons_ne_nil _ _, forall_mem_cons.2 ⟨?_, hrest⟩, ?_⟩
      · simp [Ne.symm hchar, hpiece]
      · rw [colons, colons, intercalate_cons_cons_left]

theorem colons_injective {others : List Bytes} (hpieces : ∀ piece ∈ pieces, 0x3a ∉ piece)
    (hothers : ∀ piece ∈ others, 0x3a ∉ piece) (hne : pieces ≠ []) (hne' : others ≠ [])
    (h : colons pieces = colons others) : pieces = others := by
  have hsplit := splitOn_intercalate 0x3a hpieces hne
  rw [colons] at h
  rw [h] at hsplit
  exact hsplit.symm.trans (splitOn_intercalate 0x3a hothers hne')

theorem Taken.parsed (h : Taken env pieces) :
    inet6Aton env (colons pieces) = some (addressBytes (takenWords env pieces)) :=
  (inet6Aton_colons (fun piece hmem => (h.reads piece hmem).noColon) h.ne_nil _).2 ⟨h, rfl⟩

section

variable (henv : 16 ≤ env.ulongBits) {groups left right : List Bytes}
include henv

theorem taken_full (h : ∀ group ∈ groups, IsGroup group) (hlength : groups.length = 8) :
    Taken env groups ∧ takenWords env groups = groups.map groupWord := by
  have hcount : groups.tail.dropLast.count [] = 0 := count_eq_zero.2 fun hmem =>
    notMem_groups h (mem_of_mem_tail (mem_of_mem_dropLast hmem))
  refine ⟨⟨fun group hmem => ((h group hmem).reads henv).1, hlength.le, .inr ⟨hcount, hlength⟩⟩, ?_⟩
  rw [takenWords, if_pos hcount, map_readWord henv h]

variable (hleft : ∀ group ∈ left, IsGroup group) (hright : ∀ group ∈ right, IsGroup group)
include hleft hright

theorem compressed_pieces :
    colons (sidePieces left ++ [] :: sidePieces right) =
        colons left ++ [0x3a, 0x3a] ++ colons right ∧
      ∀ piece ∈ sidePieces left ++ [] :: sidePieces right, ReadsPiece env piece := by
  have hl := isSide_sidePieces henv hleft
  have hr := isSide_sidePieces henv hright
  refine ⟨?_, forall_mem_append.2 ⟨hl.reads, forall_mem_cons.2 ⟨reads_nil, hr.reads⟩⟩⟩
  rw [colons_append hl.ne_nil (cons_ne_nil _ _), colons_cons _ hr.ne_nil, hl.text, hr.text]
  simp

/-- **Groups around `::` are taken**, if there is a piece for each side. -/
theorem taken_compressed (hlength : (sidePieces left).length + (sidePieces right).length ≤ 7) :
    Taken env (sidePieces left ++ [] :: sidePieces right) ∧
      takenWords env (sidePieces left ++ [] :: sidePieces right) =
        left.map groupWord ++ replicate (8 - (left.length + right.length)) 0 ++
          right.map groupWord := by
  have hl := isSide_sidePieces henv hleft
  have hr := isSide_sidePieces henv hright
  have hreads := (compressed_pieces henv hleft hright).2
  generalize sidePieces left = before at *
  generalize sidePieces right = behind at *
  have htail : (before ++ [] :: behind).tail = before.tail ++ [] :: behind :=
    tail_append_of_ne_nil hl.ne_nil
  have hcount : (before ++ [] :: behind).tail.dropLast.count [] = 1 := by
    rw [htail, dropLast_append_of_ne_nil (cons_ne_nil _ _), dropLast_cons_of_ne_nil hr.ne_nil,
      count_append, count_cons_self, count_eq_zero.2 hl.inner.1, count_eq_zero.2 hr.inner.2]
  have hpos := length_pos_of_ne_nil hl.ne_nil
  have hpad : (before ++ [] :: behind).tail.idxOf [] + 2 = before.length + 1 := by
    rw [htail, idxOf_append_of_notMem hl.inner.1, idxOf_cons_self, length_tail]
    omega
  refine ⟨⟨hreads, by simp; omega, .inl hcount⟩, ?_⟩
  -- the empty piece between the sides is a zero, in front of the padding
  have hzero : readWord env [] = 0 := congrArg Prod.fst (strtoul_nil env.ulongBits)
  have hwords : (before ++ [] :: behind).map (readWord env) =
      (before.map (readWord env) ++ [0]) ++ behind.map (readWord env) := by
    simp [hzero]
  have hgap : (before.map (readWord env) ++ [0]).length = before.length + 1 := by simp
  have hlengths := hl.length
  have hlengths' := hr.length
  have hall : 8 - (left.length + right.length) = before.length - left.length +
      (1 + (8 - (before.length + 1 + behind.length) + (behind.length - right.length))) := by
    omega
  simp only [takenWords]
  rw [if_neg (by omega), hpad, hwords, take_left' hgap, drop_left' hgap, length_append, hgap,
    length_map, hl.words, hr.words', hall, replicate_add, replicate_add, replicate_add]
  simp only [append_assoc, replicate_one]

end

/-- Seven groups, all on one side of `::`. -/
def SevenGroups (string : Bytes) : Prop :=
  ∃ left right, (∀ group ∈ left, IsGroup group) ∧ (∀ group ∈ right, IsGroup group) ∧
    left.length + right.length = 7 ∧ (left = [] ∨ right = []) ∧
    string = colons left ++ [0x3a, 0x3a] ++ colons right

/-- Nothing but groups, and empty pieces only where `::` makes them. -/
def Proper (pieces : List Bytes) : Prop :=
  (∀ piece ∈ pieces, IsGroup piece) ∨ ∃ left right, (∀ group ∈ left, IsGroup group) ∧
    (∀ group ∈ right, IsGroup group) ∧ pieces = sidePieces left ++ [] :: sidePieces right

/-- Pieces that can be read, though not all are groups: a number with a sign, with spaces or
leading zeros in front of it, or a colon alone at an end. -/
def Lenient (env : SocketEnv) (string : Bytes) : Prop :=
  ∃ pieces, string = colons pieces ∧ Taken env pieces ∧ ¬ Proper pieces

/-- **Acceptance.**  A string is parsed just if it denotes an address, and then to that address:
unless it has seven groups on one side of `::`, or pieces that are read without being groups. -/
theorem inet6_aton_acceptance (env : SocketEnv) (henv : 16 ≤ env.ulongBits) (string : Bytes) :
    (∀ address, inet6Aton env string = some address ↔ Denotes string address) ↔
      ¬ SevenGroups string ∧ ¬ Lenient env string := by
  constructor
  · intro h
    constructor
    · rintro ⟨left, right, hleft, hright, hlength, hside, rfl⟩
      obtain ⟨htext, hreads⟩ := compressed_pieces henv hleft hright
      have hparsed := (h _).2 (Denotes.compressed hleft hright hlength.le)
      rw [← htext, inet6Aton_colons (fun piece hmem => (hreads piece hmem).noColon)
        (append_ne_nil_of_right_ne_nil _ (cons_ne_nil _ _))] at hparsed
      have hpieces := hparsed.1.length
      rw [length_append, length_cons, (isSide_sidePieces henv hleft).length,
        (isSide_sidePieces henv hright).length] at hpieces
      rcases hside with rfl | rfl <;> simp only [length_nil] at hlength hpieces <;> omega
    · rintro ⟨pieces, rfl, htaken, hproper⟩
      have hdenotes := (h _).1 htaken.parsed
      have hcolon : ∀ piece ∈ pieces, 0x3a ∉ piece :=
        fun piece hmem => (htaken.reads piece hmem).noColon
      generalize addressBytes (takenWords env pieces) = address at hdenotes
      generalize hstring : colons pieces = string at hdenotes
      cases hdenotes with
      | @full groups hgroups hlength =>
        obtain rfl := colons_injective hcolon (fun group hmem => (hgroups group hmem).noColon)
          htaken.ne_nil (ne_nil_of_length_pos (by omega)) hstring
        exact hproper (Or.inl hgroups)
      | @compressed left right hleft hright hlength =>
        obtain ⟨htext, hreads⟩ := compressed_pieces henv hleft hright
        rw [← htext] at hstring
        obtain rfl := colons_injective hcolon (fun piece hmem => (hreads piece hmem).noColon)
          htaken.ne_nil (append_ne_nil_of_right_ne_nil _ (cons_ne_nil _ _)) hstring
        exact hproper (Or.inr ⟨left, right, hleft, hright, rfl⟩)
  · rintro ⟨hseven, hlenient⟩ address
    constructor
    · intro hparsed
      obtain ⟨pieces, hne, hcolon, rfl⟩ := exists_colons string
      obtain ⟨htaken, rfl⟩ := (inet6Aton_colons hcolon hne address).1 hparsed
      have hproper : Proper pieces := by
        by_contra hproper
        exact hlenient ⟨pieces, rfl, htaken, hproper⟩
      rcases hproper with hgroups | ⟨left, right, hleft, hright, rfl⟩
      · have hlength : pieces.length = 8 := by
          rcases htaken.inner with hone | ⟨-, hlength⟩
          · exact absurd (mem_of_mem_tail (mem_of_mem_dropLast
              (count_pos_iff.1 (hone.symm ▸ Nat.one_pos)))) (notMem_groups hgroups)
          · exact hlength
        rw [(taken_full henv hgroups hlength).2]
        exact Denotes.full hgroups hlength
      · have hlength := htaken.length
        rw [length_append, length_cons] at hlength
        rw [(taken_compressed henv hleft hright (by omega)).2,
          (compressed_pieces henv hleft hright).1]
        rw [(isSide_sidePieces henv hleft).length, (isSide_sidePieces henv hright).length]
          at hlength
        exact Denotes.compressed hleft hright (by omega)
    · intro hdenotes
      cases hdenotes with
      | full hgroups hlength =>
        obtain ⟨htaken, hwords⟩ := taken_full henv hgroups hlength
        exact hwords ▸ htaken.parsed
      | @compressed left right hleft hright hlength =>
        have hsides : (sidePieces left).length + (sidePieces right).length ≤ 7 := by
          by_contra hlong
          rw [(isSide_sidePieces henv hleft).length, (isSide_sidePieces henv hright).length]
          at hlong
          refine hseven ⟨left, right, hleft, hright, by omega, ?_, rfl⟩
          rw [← length_eq_zero_iff, ← length_eq_zero_iff]
          omega
        obtain ⟨htaken, hwords⟩ := taken_compressed henv hleft hright hsides
        rw [← (compressed_pieces henv hleft hright).1, ← hwords]
        exact htaken.parsed

/-- A build with an `unsigned long` of sixty-four bits. -/
def longEnv : SocketEnv where
  ulongBits := 64
  strdup := true
  findNetdev := fun _ => false
  converters := []

theorem inet6_aton_acceptance_long :
    (∀ address, inet6Aton longEnv (ascii "::1") = some address ↔ Denotes (ascii "::1") address) ↔
      ¬ SevenGroups (ascii "::1") ∧ ¬ Lenient longEnv (ascii "::1") :=
  inet6_aton_acceptance longEnv (by decide) (ascii "::1")

/-- `1:2:3:4:5:6:7::` is not parsed, and `:2:3:4:5:6:7:8` is. -/
theorem inet6_aton_acceptance_broken :
    (inet6Aton longEnv (ascii "1:2:3:4:5:6:7::") = none ∧
      Denotes (ascii "1:2:3:4:5:6:7::") (addressBytes [1, 2, 3, 4, 5, 6, 7, 0])) ∧
    inet6Aton longEnv (ascii ":2:3:4:5:6:7:8") = some (addressBytes [0, 2, 3, 4, 5, 6, 7, 8]) := by
  refine ⟨⟨by decide +kernel, ?_⟩, by decide +kernel⟩
  have hgroups : ∀ group ∈ [[0x31], [0x32], [0x33], [0x34], [0x35], [0x36], [0x37]],
      IsGroup group := by decide +kernel
  exact Denotes.compressed hgroups (forall_mem_nil _) le_rfl

end

variable (words : List UInt16)

/-- So many zero words from a start on. -/
def ZeroRun (start len : ℕ) : Prop :=
  ∃ before behind, words = before ++ (List.replicate len 0 ++ behind) ∧ before.length = start

/-- The first of the longest runs of zero words. -/
structure FirstLongest (words : List UInt16) (start len : ℕ) : Prop where
  run : ZeroRun words start len
  longest : ∀ start' len', ZeroRun words start' len' → len' ≤ len ∧ (len' = len → start ≤ start')

/-- The digits of a word: lower case, no leading zeros. -/
def groupText (word : UInt16) : Bytes := digitsText 16 false word.toNat

/-- The canonical text of an address. -/
inductive Canonical (words : List UInt16) : Bytes → Prop
  | full (h : ∀ start len, ZeroRun words start len → len ≤ 1) :
      Canonical words (colons (words.map groupText))
  | compressed {start len : ℕ} (hlen : 2 ≤ len) (h : FirstLongest words start len) :
      Canonical words (colons ((words.take start).map groupText) ++ [0x3a, 0x3a] ++
        colons ((words.drop (start + len)).map groupText))

/-! ## The formatter -/

def wordsText : Bytes := words.flatMap fun word => 0x3a :: groupText word

/-- What the formatter knows of the words behind it. -/
structure Tracks (words : List UInt16) (state : Inet6Ntoa) : Prop where
  out : state.out = wordsText words
  run : ZeroRun words (words.length - state.len) state.len
  behind : ∀ start len, ZeroRun words start len → start + len = words.length → len ≤ state.len
  start : state.len ≠ 0 →
    state.start = some (wordsText (words.take (words.length - state.len))).length
  longest : ∀ start len, ZeroRun words start len → len ≤ state.longestLen
  found : state.longestStart = none ∧ state.longestLen = 1 ∨
    2 ≤ state.longestLen ∧ ∃ start, FirstLongest words start state.longestLen ∧
      state.longestStart = some (wordsText (words.take start)).length

theorem formatHex_word (word : UInt16) :
    Vsprintf.formatHex word.toNat 0 LCASE = groupText word := by
  have hflags : (zeroFlag false ||| if false = true then 0 else 0x20) = LCASE := by decide
  rw [← hflags, formatHex_eq, hexText, paddedText]
  simp [groupText]

section

variable {words : List UInt16} {start len : ℕ}

theorem ZeroRun.inside (h : ZeroRun words start len) : start + len ≤ words.length := by
  obtain ⟨before, behind, rfl, rfl⟩ := h
  simp

theorem ZeroRun.split (h : ZeroRun words start len) :
    words = words.take start ++ (replicate len 0 ++ words.drop (start + len)) := by
  obtain ⟨before, behind, rfl, rfl⟩ := h
  simp [← drop_drop]

theorem ZeroRun.concat (h : ZeroRun words start len) (word : UInt16) :
    ZeroRun (words ++ [word]) start len := by
  obtain ⟨before, behind, rfl, rfl⟩ := h
  exact ⟨before, behind ++ [word], by simp, rfl⟩

theorem zeroRun_concat {word : UInt16} :
    ZeroRun (words ++ [word]) start (len + 1) ↔ ZeroRun words start (len + 1) ∨
      start + len = words.length ∧ word = 0 ∧ ZeroRun words start len := by
  constructor
  · rintro ⟨before, behind, h, rfl⟩
    rcases eq_nil_or_concat behind with rfl | ⟨behind, last, rfl⟩
    · rw [append_nil, replicate_succ', ← append_assoc] at h
      obtain ⟨rfl, hword⟩ := append_inj' h rfl
      exact .inr ⟨by simp, singleton_inj.1 hword, before, [], by simp, rfl⟩
    · rw [concat_eq_append, ← append_assoc, ← append_assoc] at h
      obtain ⟨rfl, -⟩ := append_inj' h rfl
      exact .inl ⟨before, behind, by simp, rfl⟩
  · rintro (h | ⟨hend, rfl, before, behind, rfl, rfl⟩)
    · exact h.concat word
    · have hbehind : behind = [] := by simpa using hend
      exact ⟨before, [], by simp [hbehind, replicate_succ'], rfl⟩

theorem take_concat {count : ℕ} (h : count ≤ words.length) (word : UInt16) :
    (words ++ [word]).take count = words.take count := take_append_of_le_length h

/-- A run of zeros is an old one, or ends with the new word. -/
theorem Tracks.runs {state : Inet6Ntoa} (h : Tracks words state) {word : UInt16}
    (hrun : ZeroRun (words ++ [word]) start len) : len = 0 ∨ ZeroRun words start len ∨
      start + len = words.length + 1 ∧ word = 0 ∧ len ≤ state.len + 1 := by
  cases len with
  | zero => exact .inl rfl
  | succ len =>
    rcases zeroRun_concat.1 hrun with hold | ⟨hend, hword, hold⟩
    · exact .inr (.inl hold)
    · exact .inr (.inr ⟨by omega, hword, Nat.succ_le_succ (h.behind start len hold hend)⟩)

theorem Tracks.kept {state : Inet6Ntoa} (h : Tracks words state) {word : UInt16}
    (hshort : word = 0 → state.len + 1 ≤ state.longestLen) :
    (∀ start len, ZeroRun (words ++ [word]) start len → len ≤ state.longestLen) ∧
      (state.longestStart = none ∧ state.longestLen = 1 ∨
        2 ≤ state.longestLen ∧ ∃ start, FirstLongest (words ++ [word]) start state.longestLen ∧
          state.longestStart = some (wordsText ((words ++ [word]).take start)).length) := by
  refine ⟨fun start len hrun => ?_, h.found.imp_right ?_⟩
  · rcases h.runs hrun with rfl | hold | ⟨-, hword, hle⟩
    · exact Nat.zero_le _
    · exact h.longest start len hold
    · exact hle.trans (hshort hword)
  · rintro ⟨htwo, start, ⟨hrun, hfirst⟩, hstart⟩
    have hinside := hrun.inside
    refine ⟨htwo, start, ⟨hrun.concat word, fun start' len' hrun' => ?_⟩, ?_⟩
    · rcases h.runs hrun' with rfl | hold | ⟨hend, hword, hle⟩
      · omega
      · exact hfirst start' len' hold
      · have hkept := hshort hword
        omega
    · rw [take_concat (by omega)]
      exact hstart

theorem Tracks.word {state : Inet6Ntoa} (h : Tracks words state)
    (value : UInt16) : Tracks (words ++ [value]) (state.word value) := by
  have hout : state.out ++ 0x3a :: Vsprintf.formatHex value.toNat 0 LCASE =
      wordsText (words ++ [value]) := by
    rw [h.out, formatHex_word]
    simp [wordsText]
  have hlen := h.run.inside
  have hbehind : ∀ start len, ZeroRun (words ++ [value]) start len →
      start + len = (words ++ [value]).length → len ≤ if value = 0 then state.len + 1 else 0 := by
    intro start len hrun hend
    rw [length_append, length_singleton] at hend
    rcases h.runs hrun with rfl | hold | ⟨-, hzero, hle⟩
    · exact Nat.zero_le _
    · have hinside := hold.inside
      omega
    · rwa [if_pos hzero]
  unfold Inet6Ntoa.word
  by_cases hvalue : value = 0
  · subst hvalue
    have hplace : (words ++ [0]).length - (state.len + 1) = words.length - state.len := by
      rw [length_append, length_singleton]
      omega
    have hstart : (if state.len = 0 then some state.out.length else state.start) =
        some (wordsText ((words ++ [0]).take (words.length - state.len))).length := by
      rw [take_concat (by omega)]
      split_ifs with hzero
      · rw [hzero, h.out, Nat.sub_zero, take_length]
      · exact h.start hzero
    have hrun : ZeroRun (words ++ [0]) (words.length - state.len) (state.len + 1) :=
      zeroRun_concat.2 (.inr ⟨by omega, rfl, h.run⟩)
    simp only [if_true, hstart]
    split_ifs with hmore
    · -- the run at the end has become the longest
      have htwo : 2 ≤ state.len + 1 := by
        rcases h.found with ⟨-, hone⟩ | ⟨htwo, -⟩ <;> omega
      have hruns : ∀ start len, ZeroRun (words ++ [0]) start len →
          len ≤ state.len + 1 ∧ (len = state.len + 1 → words.length - state.len ≤ start) := by
        intro start len hrun
        rcases h.runs hrun with rfl | hold | hnew
        · omega
        · have hless := h.longest start _ hold
          omega
        · omega
      exact ⟨hout, hplace ▸ hrun, hbehind, fun _ => by rw [hplace],
        fun start len hrun => (hruns start len hrun).1, .inr ⟨htwo, _, ⟨hrun, hruns⟩, rfl⟩⟩
    · have hkept := @Tracks.kept words state h 0 (fun _ => by omega)
      exact ⟨hout, hplace ▸ hrun, hbehind, fun _ => by rw [hplace], hkept.1, hkept.2⟩
  · have hkept := h.kept (fun hzero => absurd hzero hvalue)
    simp only [if_neg hvalue] at hbehind ⊢
    exact ⟨hout, ⟨words ++ [value], [], by simp, rfl⟩, hbehind, fun hne => absurd rfl hne,
      hkept.1, hkept.2⟩

end

theorem tracks_foldl : Tracks words (words.foldl Inet6Ntoa.word {}) := by
  induction words using List.reverseRecOn with
  | nil =>
    have hnone : ∀ start len, ZeroRun [] start len → len = 0 := fun start len h => by
      have hinside := h.inside
      rw [length_nil] at hinside
      omega
    exact ⟨rfl, ⟨[], [], rfl, rfl⟩, fun start len h _ => (hnone start len h).le,
      fun h => absurd rfl h, fun start len h => by rw [hnone start len h]; exact Nat.zero_le _,
      .inl ⟨rfl, rfl⟩⟩
  | append_singleton words word ih =>
    rw [foldl_concat]
    exact ih.word word

theorem tail_wordsText : (wordsText words).tail = colons (words.map groupText) := by
  cases words with
  | nil => rfl
  | cons word words =>
    have htext : groupText word ++ wordsText words = colons ((word :: words).map groupText) := by
      induction words generalizing word with
      | nil => simp [wordsText, colons]
      | cons next words ih =>
        rw [map_cons, map_cons, colons_cons _ (cons_ne_nil _ _), ← map_cons, ← ih]
        rfl
    exact htext

theorem length_wordsText_replicate (len : ℕ) : (wordsText (replicate len 0)).length = 2 * len := by
  induction len with
  | zero => rfl
  | succ len ih =>
    have hgroup : (groupText 0).length = 1 := by decide
    rw [replicate_succ, wordsText, flatMap_cons, length_append, length_cons]
    rw [wordsText] at ih
    omega

theorem inet6Ntoa_canonical (address : Vector UInt16 8) :
    Canonical address.toList (inet6Ntoa address) := by
  have htracks := tracks_foldl address.toList
  unfold inet6Ntoa
  generalize address.toList.foldl Inet6Ntoa.word {} = state at htracks
  generalize address.toList = words at htracks ⊢
  rcases htracks.found with ⟨hnone, hone⟩ | ⟨htwo, start, hfirst, hstart⟩
  · simp only [hnone]
    rw [htracks.out, tail_wordsText]
    exact .full fun start len h => hone ▸ htracks.longest start len h
  · obtain ⟨len, hlen⟩ : ∃ len, state.longestLen = len + 1 := ⟨state.longestLen - 1, by omega⟩
    have hzeros := length_wordsText_replicate state.longestLen
    have hfirstZero : wordsText (replicate state.longestLen 0) =
        0x3a :: (wordsText (replicate state.longestLen 0)).tail := by
      rw [hlen]
      rfl
    have htext : wordsText words = wordsText (words.take start) ++
        (wordsText (replicate state.longestLen 0) ++
          wordsText (words.drop (start + state.longestLen))) := by
      conv_lhs => rw [hfirst.run.split]
      simp [wordsText]
    have hrest : (wordsText words).drop
        ((wordsText (words.take start)).length + 2 * state.longestLen) =
        wordsText (words.drop (start + state.longestLen)) := by
      rw [htext, ← append_assoc]
      exact drop_left' (by rw [length_append, hzeros])
    have hbuf : (wordsText words).take ((wordsText (words.take start)).length + 1) =
        wordsText (words.take start) ++ [0x3a] := by
      rw [htext, hfirstZero, take_length_add_append]
      rfl
    have hcanonical := Canonical.compressed htwo hfirst
    rw [← tail_wordsText, ← tail_wordsText] at hcanonical
    simp only [hstart, htracks.out, hrest, hbuf]
    generalize wordsText (words.take start) = before at hcanonical ⊢
    cases before with
    | nil => exact hcanonical
    | cons char before => simpa using hcanonical

theorem filterMap_digitChar {digits : List ℕ} (h : ∀ digit ∈ digits, digit < 16) :
    (digits.map (digitChar false)).filterMap hexDigit = digits := by
  have hdigit : ∀ digit < 16, hexDigit (digitChar false digit) = some digit := by decide
  induction digits with
  | nil => rfl
  | cons digit digits ih =>
    obtain ⟨hfirst, hrest⟩ := forall_mem_cons.1 h
    rw [map_cons, filterMap_cons_some (hdigit digit hfirst), ih hrest]

theorem isGroup_groupText (word : UInt16) : IsGroup (groupText word) := by
  have hdigit : ∀ digit < 16, (hexDigit (digitChar false digit)).isSome := by decide
  refine ⟨fun char hmem => ?_, ?_, ?_⟩
  · obtain ⟨digit, hlt, rfl⟩ := mem_map.1 hmem
    exact hdigit digit (numeral_lt (by decide) _ digit hlt)
  · exact fun h => numeral_ne_nil 16 word.toNat (map_eq_nil_iff.1 h)
  · rw [groupText, digitsText, length_map]
    exact length_numeral_le (by decide) (by decide) word.toNat_lt

theorem map_groupText :
    (∀ group ∈ words.map groupText, IsGroup group) ∧
      (words.map groupText).map groupWord = words.map UInt16.toNat := by
  constructor
  · intro group hmem
    obtain ⟨word, -, rfl⟩ := mem_map.1 hmem
    exact isGroup_groupText word
  · rw [map_map]
    refine map_congr_left fun word _ => ?_
    rw [Function.comp_apply, groupWord, groupText, digitsText,
      filterMap_digitChar (numeral_lt (by decide) _), numeralValue_numeral (by decide)]

/-- **Addresses as text.**  The text of an address is canonical, and is parsed to the address. -/
theorem inet6_round_trip (env : SocketEnv) (henv : 16 ≤ env.ulongBits) (address : Vector UInt16 8) :
    Canonical address.toList (inet6Ntoa address) ∧
      inet6Aton env (inet6Ntoa address) =
        some (addressBytes (address.toList.map UInt16.toNat)) := by
  have hcanonical := inet6Ntoa_canonical address
  refine ⟨hcanonical, ?_⟩
  have hlength : address.toList.length = 8 := address.length_toList
  generalize inet6Ntoa address = text at hcanonical
  generalize address.toList = words at hcanonical hlength
  cases hcanonical with
  | full =>
    obtain ⟨hgroups, hwords⟩ := map_groupText words
    obtain ⟨htaken, haddress⟩ := taken_full henv hgroups ((length_map _).trans hlength)
    rw [htaken.parsed, haddress, hwords]
  | @compressed start len hlen hfirst =>
    have hinside := hfirst.run.inside
    obtain ⟨hleft, hleftWords⟩ := map_groupText (words.take start)
    obtain ⟨hright, hrightWords⟩ := map_groupText (words.drop (start + len))
    have hsides : (words.take start).length = start ∧
        (words.drop (start + len)).length = 8 - (start + len) := by
      rw [length_take, length_drop]
      omega
    obtain ⟨htaken, haddress⟩ := taken_compressed henv hleft hright (by
      rw [(isSide_sidePieces henv hleft).length, (isSide_sidePieces henv hright).length,
        length_map, length_map, hsides.2]
      omega)
    rw [hleftWords, hrightWords, length_map, length_map, hsides.1, hsides.2,
      show 8 - (start + (8 - (start + len))) = len by omega] at haddress
    rw [← (compressed_pieces henv hleft hright).1, htaken.parsed, haddress]
    conv_rhs => rw [hfirst.run.split]
    simp

theorem inet6_round_trip_loopback :
    Canonical [0, 0, 0, 0, 0, 0, 0, 1] (inet6Ntoa #v[0, 0, 0, 0, 0, 0, 0, 1]) ∧
      inet6Aton longEnv (inet6Ntoa #v[0, 0, 0, 0, 0, 0, 0, 1]) =
        some (addressBytes [0, 0, 0, 0, 0, 0, 0, 1]) :=
  inet6_round_trip longEnv (by decide) #v[0, 0, 0, 0, 0, 0, 0, 1]

end Ipxe.Analysis
