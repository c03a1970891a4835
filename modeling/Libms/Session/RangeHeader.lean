import Mathlib
import Libms.Framework.Text
import Libms.Session.MsSession

/-! # Range headers

    `ms_session_open` hands the header to `sscanf` and looks at the two
    numbers afterwards. A header that does not pass the `if` keeps what
    `sscanf` has stored, and one that passes it can still fail the assert.

    * `rangeNumbers`: the numbers that a header writes, of any size.
    * `RangeSane`: a session opens on a range that is not negative, and on
      the one that a plain header spells.
    * `RangeFits`: the headers for which this is so, by their numbers.
    * `rangeSane_iff`: the two agree on every header. -/

namespace Libms

open CInt Text

/-! ## The header -/

/-- The format of `http_parse_range_header`. -/
def rangeFormat : List Directive := lits "bytes=".toList ++ [.int, .lit '-', .int]

/-- The numbers that a header writes. -/
def rangeNumbers (header : List Char) : List Int :=
  written rangeFormat (header.takeWhile (· ≠ '\x00'))

/-- `bytes=a-` -/
def SpellsFrom (header : List Char) (a : Int) : Prop :=
  ∃ ds, Numeral ds a ∧ header = "bytes=".toList ++ (ds ++ ['-'])

/-- `bytes=a-b` -/
def SpellsRange (header : List Char) (a b : Int) : Prop :=
  ∃ ds es, Numeral ds a ∧ Numeral es b ∧ header = "bytes=".toList ++ (ds ++ '-' :: es)

/-- The session that `ms_session_open` returns, `none` when it aborts. -/
def openedSession (task : Nat) (method : Method) (rangeHdr : Option (List Char)) (v : TaskView) :
    Option Session :=
  (requestedRange rangeHdr).map fun r => msSessionOpen task method r.1 r.2 v

/-- Every request with this header opens a session, and its range has `P`. -/
def OpensWith (rangeHdr : Option (List Char)) (P : Int → Int → Prop) : Prop :=
  ∀ task method v, ∃ s ∈ openedSession task method rangeHdr v, P s.reqPos s.reqLen

/-- Range parsing is total and sane on this header: `ms_session_open` fails
    no assert, its range is not negative, and the two plain forms are taken
    at their word. -/
structure RangeSane (rangeHdr : Option (List Char)) : Prop where
  opens : OpensWith rangeHdr fun reqPos reqLen => 0 ≤ reqPos ∧ 0 ≤ reqLen
  range : ∀ h ∈ rangeHdr, ∀ a b, SpellsRange h a b → a ≤ b →
    OpensWith rangeHdr fun reqPos reqLen => reqPos = a ∧ reqLen = b - a + 1
  openEnded : ∀ h ∈ rangeHdr, ∀ a, SpellsFrom h a →
    OpensWith rangeHdr fun reqPos reqLen => reqPos = a ∧ reqLen = 0

/-- The numbers of a header pass: no sign, in order up to an empty range, and
    a length that an `int64_t` can hold. -/
def NumbersFit : List Int → Prop
  | [] => True
  | [a] => 0 ≤ a
  | a :: b :: _ => 0 ≤ a ∧ 0 ≤ b ∧ clampInt64 a ≤ clampInt64 b + 1 ∧ ¬ (a = 0 ∧ 2 ^ 63 - 1 ≤ b)

/-- The headers that are parsed well: their numbers pass, and no number of a
    plain form is too large for an `int64_t`. -/
def RangeFits (rangeHdr : Option (List Char)) : Prop :=
  ∀ h ∈ rangeHdr, NumbersFit (rangeNumbers h) ∧
    (∀ a b, SpellsRange h a b → a ≤ b → b < 2 ^ 63) ∧ (∀ a, SpellsFrom h a → a < 2 ^ 63)

/-! ## The numbers of the plain forms -/

/-- A numeral has no NUL. -/
theorem numeral_noNul {ds : List Char} {z : Int} (h : Numeral ds z) : ∀ c ∈ ds, c ≠ '\x00' :=
  fun c hc => digit_ne_nul (h.digits c hc)

theorem SpellsFrom.numbers {h : List Char} {a : Int} (hs : SpellsFrom h a) :
    rangeNumbers h = [a] := by
  obtain ⟨ds, hds, rfl⟩ := hs
  unfold rangeNumbers rangeFormat
  rw [takeWhile_rangeText (numeral_noNul hds) (List.forall_mem_nil _), written_lits,
    hds.written (noDigitNext_cons (by decide))]
  rfl

theorem SpellsRange.numbers {h : List Char} {a b : Int} (hs : SpellsRange h a b) :
    rangeNumbers h = [a, b] := by
  obtain ⟨ds, es, hds, hes, rfl⟩ := hs
  have hend : written [.int] (es ++ []) = [b] := hes.written noDigitNext_nil []
  rw [List.append_nil] at hend
  unfold rangeNumbers rangeFormat
  rw [takeWhile_rangeText (numeral_noNul hds) (numeral_noNul hes), written_lits,
    hds.written (noDigitNext_cons (by decide))]
  exact congrArg (a :: ·) hend

theorem httpParseRangeHeader_eq (header : List Char) :
    httpParseRangeHeader header = (rangeNumbers header).map clampInt64 :=
  scanf_eq_written rangeFormat _

/-! ## What the session is opened with -/

/-- The task and the method have no say in it. -/
theorem opensWith_iff {rangeHdr : Option (List Char)} {P : Int → Int → Prop} :
    OpensWith rangeHdr P ↔ ∃ r ∈ requestedRange rangeHdr, P r.1 r.2 := by
  unfold OpensWith openedSession
  cases requestedRange rangeHdr with
  | none =>
    simp only [Option.map_none, Option.mem_def, reduceCtorEq, false_and, exists_false, iff_false]
    exact fun h => h 0 .get ⟨0, [], 0, fun _ _ => none⟩
  | some r =>
    constructor
    · intro h
      obtain ⟨s, hs, hP⟩ := h 0 .get ⟨0, [], 0, fun _ _ => none⟩
      cases hs
      exact ⟨r, rfl, hP⟩
    · intro ⟨r', hr, hP⟩ task method v
      cases hr
      exact ⟨_, rfl, hP⟩

theorem clampInt64_nonneg_iff {z : Int} : 0 ≤ clampInt64 z ↔ 0 ≤ z := by
  unfold clampInt64
  omega

/-- The length of two numbers that have no sign: it is not negative iff they
    are in order and it fits. -/
theorem rangeLen_nonneg_iff {a b : Int} (ha : 0 ≤ a) (hb : 0 ≤ b) :
    0 ≤ toInt64 (clampInt64 b - clampInt64 a + 1) ↔
      clampInt64 a ≤ clampInt64 b + 1 ∧ ¬ (a = 0 ∧ 2 ^ 63 - 1 ≤ b) := by
  unfold toInt64 clampInt64
  omega

/-- **The sign.** The assert holds and nothing negative is stored iff the
    numbers of the header pass. -/
theorem opens_nonneg_iff (h : List Char) :
    (OpensWith (some h) fun reqPos reqLen => 0 ≤ reqPos ∧ 0 ≤ reqLen) ↔
      NumbersFit (rangeNumbers h) := by
  rw [opensWith_iff]
  unfold requestedRange
  rw [Option.map_some, httpParseRangeHeader_eq]
  match rangeNumbers h with
  | [] =>
    -- nothing was stored
    exact ⟨fun _ => trivial, fun _ => ⟨(0, 0), rfl, le_refl _, le_refl _⟩⟩
  | [a] =>
    -- the sign is checked, and the number is kept all the same
    constructor
    · intro ⟨r, hr, hnonneg, _⟩
      cases hr
      exact clampInt64_nonneg_iff.mp hnonneg
    · intro hfit
      exact ⟨(clampInt64 a, 0), rfl, clampInt64_nonneg_iff.mpr hfit, le_refl _⟩
  | a :: b :: _ =>
    simp only [List.map_cons]
    split
    · rename_i hsigns
      have ha := clampInt64_nonneg_iff.mp hsigns.1
      have hb := clampInt64_nonneg_iff.mp hsigns.2
      split
      · rename_i hlen
        exact ⟨fun _ => ⟨ha, hb, (rangeLen_nonneg_iff ha hb).mp hlen⟩,
          fun _ => ⟨_, rfl, hsigns.1, hlen⟩⟩
      · rename_i hlen
        constructor
        · intro ⟨r, hr, _⟩
          cases hr
        · intro hfit
          exact absurd ((rangeLen_nonneg_iff ha hb).mpr hfit.2.2) hlen
    · rename_i hneg
      constructor
      · intro ⟨r, hr, hr1, hr2⟩
        cases hr
        exact absurd ⟨hr1, hr2⟩ hneg
      · intro hfit
        exact absurd ⟨clampInt64_nonneg_iff.mpr hfit.1, clampInt64_nonneg_iff.mpr hfit.2.1⟩ hneg

/-- A first byte alone is taken as it stands iff it is an `int64_t`. -/
theorem SpellsFrom.exact_iff {h : List Char} {a : Int} (hs : SpellsFrom h a) :
    (OpensWith (some h) fun reqPos reqLen => reqPos = a ∧ reqLen = 0) ↔ a < 2 ^ 63 := by
  obtain ⟨ds, hds, -⟩ := id hs
  have ha := hds.nonneg
  rw [opensWith_iff]
  unfold requestedRange
  rw [Option.map_some, httpParseRangeHeader_eq, hs.numbers]
  constructor
  · intro ⟨r, hr, hexact, _⟩
    cases hr
    rw [← hexact]
    exact (clampInt64_range a).2
  · intro hfits
    exact ⟨_, rfl, clampInt64_of_range (by omega) hfits, rfl⟩

/-- A first and a last byte are taken at their word iff both are of type
    `int64_t` and so is the length. -/
theorem SpellsRange.exact_iff {h : List Char} {a b : Int} (hs : SpellsRange h a b) (hle : a ≤ b) :
    (OpensWith (some h) fun reqPos reqLen => reqPos = a ∧ reqLen = b - a + 1) ↔
      b < 2 ^ 63 ∧ ¬ (a = 0 ∧ 2 ^ 63 - 1 ≤ b) := by
  obtain ⟨ds, es, hds, hes, -⟩ := id hs
  have ha := hds.nonneg
  have hb := hes.nonneg
  rw [opensWith_iff]
  unfold requestedRange
  rw [Option.map_some, httpParseRangeHeader_eq, hs.numbers]
  simp only [List.map_cons]
  rw [if_pos ⟨clampInt64_nonneg_iff.mpr ha, clampInt64_nonneg_iff.mpr hb⟩]
  constructor
  · intro ⟨r, hr, hfirst, hlen⟩
    split at hr
    · rename_i hnonneg
      cases hr
      have hpass := (rangeLen_nonneg_iff ha hb).mp hnonneg
      -- the length of clamped numbers is the one asked for, so nothing was clamped
      have hexact : toInt64 (clampInt64 b - clampInt64 a + 1) = b - a + 1 := hlen
      have hstored : clampInt64 a = a := hfirst
      unfold toInt64 clampInt64 at *
      exact ⟨by omega, hpass.2⟩
    · cases hr
  · intro ⟨hfits, hlen⟩
    have hb' := clampInt64_of_range (z := b) (by omega) hfits
    have ha' := clampInt64_of_range (z := a) (by omega) (by omega)
    rw [hb', ha', toInt64_of_range (by omega) (by omega), if_pos (by omega)]
    exact ⟨_, rfl, rfl, rfl⟩

/-- **Range parsing.** For every Range header, or none: `ms_session_open`
    fails no assert, stores nothing negative and takes the plain forms at
    their word iff the numbers of the header fit. -/
theorem rangeSane_iff (rangeHdr : Option (List Char)) :
    RangeSane rangeHdr ↔ RangeFits rangeHdr := by
  cases rangeHdr with
  | none =>
    constructor
    · intro _ h hh
      cases hh
    · intro _
      have hopens : OpensWith none fun reqPos reqLen => 0 ≤ reqPos ∧ 0 ≤ reqLen :=
        opensWith_iff.mpr ⟨(0, 0), rfl, le_refl _, le_refl _⟩
      exact ⟨hopens, fun h hh => (by cases hh), fun h hh => (by cases hh)⟩
  | some h =>
    constructor
    · intro hsane h' hh
      cases hh
      have hfit := (opens_nonneg_iff h).mp hsane.opens
      refine ⟨hfit, ?_, ?_⟩
      · intro a b hs hle
        exact ((hs.exact_iff hle).mp (hsane.range h rfl a b hs hle)).1
      · intro a hs
        exact hs.exact_iff.mp (hsane.openEnded h rfl a hs)
    · intro hfits
      obtain ⟨hfit, hrange, hfrom⟩ := hfits h rfl
      constructor
      case opens => exact (opens_nonneg_iff h).mpr hfit
      case range =>
        intro h' hh a b hs hle
        cases hh
        rw [hs.numbers] at hfit
        exact (hs.exact_iff hle).mpr ⟨hrange a b hs hle, hfit.2.2.2⟩
      case openEnded =>
        intro h' hh a hs
        cases hh
        exact hs.exact_iff.mpr (hfrom a hs)

/-- A suffix range is stored as a negative offset, a range in reverse order
    fails the assert, and a minus before the last byte gives a negative length. -/
theorem rangeSane_fails :
    requestedRange (some "bytes=-500".toList) = some (-500, 0) ∧
      requestedRange (some "bytes=5-2".toList) = none ∧
      requestedRange (some "bytes=5--3".toList) = some (5, -3) ∧
      ¬ RangeSane (some "bytes=-500".toList) ∧ ¬ RangeSane (some "bytes=5-2".toList) := by
  have hsuffix : requestedRange (some "bytes=-500".toList) = some (-500, 0) := by decide +kernel
  have hreverse : requestedRange (some "bytes=5-2".toList) = none := by decide +kernel
  refine ⟨hsuffix, hreverse, by decide +kernel, ?_, ?_⟩
  · intro hsane
    obtain ⟨r, hr, hpos, -⟩ := opensWith_iff.mp hsane.opens
    rw [hsuffix] at hr
    cases hr
    exact absurd hpos (by decide)
  · intro hsane
    obtain ⟨r, hr, -⟩ := opensWith_iff.mp hsane.opens
    rw [hreverse] at hr
    cases hr

/-- Leading zeros are part of a numeral. -/
example : requestedRange (some "bytes=007-010".toList) = some (7, 4) := by decide +kernel

end Libms
