import Chronicle.Command.Run
import Chronicle.Proofs.Timestamp.Rfc3339
import Chronicle.Timestamp.Display

-- The displayed text of an instant is read as that instant, if its offset is a
-- whole number of minutes. An offset with seconds is printed without them, and
-- the text then names another instant, or none.

namespace Chronicle

open Timestamp Timestamp.Lexeme

namespace CivilTime

-- Microseconds of a second as the digits after the point.
def fractionDigits (micros : Nat) : List Char :=
  if micros = 0 then []
  else if micros % 1000 = 0 then (padded 3 (micros / 1000)).toList
  else (padded 6 micros).toList

-- The date and the time of `micros` microseconds of local time.
def ofMicros (micros : Int) : CivilTime :=
  let ofDay := (micros % 86400000000).toNat
  let second := ofDay / 1000000
  ⟨Calendar.Date.ofDays (micros / 86400000000), second / 3600, second / 60 % 60, second % 60,
    fractionDigits (ofDay % 1000000)⟩

end CivilTime

namespace Timestamp

variable {timestamp : Timestamp} {micros : Int}

open CivilTime

-- The digits are those of the text, and count so many microseconds.
structure IsFraction (micros : Nat) (digits : List Char) : Prop where
  allDigits : AllDigits digits
  nanoseconds_eq : nanoseconds digits = micros * 1000
  text_eq : (fractionText micros).toList = pointed digits

theorem isFraction_fractionDigits {micros : Nat} (h : micros < 1000000) :
    IsFraction micros (fractionDigits micros) := by
  have hmillis : Counts 3 (micros / 1000) (padded 3 (micros / 1000)).toList :=
    counts_padded (by decide) (by omega)
  have hmicros : Counts 6 micros (padded 6 micros).toList := counts_padded (by decide) h
  have hscale : tenTo (9 - 3) = 1000000 := by decide
  have hscale' : tenTo (9 - 6) = 1000 := by decide
  unfold fractionDigits
  split_ifs with hzero hthousands
  · exact ⟨by simp [AllDigits], by simp [hzero], by simp [hzero, fractionText, pointed]⟩
  · obtain ⟨c, tail, hdigits, -⟩ := hmillis.head
    refine ⟨hmillis.allDigits, ?_, by simp [fractionText, hzero, hthousands, pointed, hdigits]⟩
    rw [nanoseconds_of_counts hmillis (by decide), hscale]
    omega
  · obtain ⟨c, tail, hdigits, -⟩ := hmicros.head
    refine ⟨hmicros.allDigits, ?_, by simp [fractionText, hzero, hthousands, pointed, hdigits]⟩
    rw [nanoseconds_of_counts hmicros (by decide), hscale']

theorem isFraction_ofMicros (micros : Int) :
    IsFraction ((micros % 86400000000).toNat % 1000000) (CivilTime.ofMicros micros).fraction :=
  isFraction_fractionDigits (Nat.mod_lt _ (by decide))

theorem valid_ofMicros (hlow : 0 ≤ (CivilTime.ofMicros micros).date.year)
    (hhigh : (CivilTime.ofMicros micros).date.year ≤ 9999) : (CivilTime.ofMicros micros).Valid := by
  have hclock : (CivilTime.ofMicros micros).hour < 24 ∧ (CivilTime.ofMicros micros).minute < 60 ∧
      (CivilTime.ofMicros micros).second ≤ 60 := by
    simp only [CivilTime.ofMicros]
    omega
  exact ⟨Calendar.exists_ofDays _, hlow, hhigh, hclock.1, hclock.2.1, hclock.2.2,
    (isFraction_ofMicros micros).allDigits⟩

theorem micros_ofMicros (micros : Int) : (CivilTime.ofMicros micros).micros = micros := by
  have hfraction := (isFraction_ofMicros micros).nanoseconds_eq
  simp only [CivilTime.ofMicros] at hfraction
  simp only [CivilTime.micros, toLocalTime, LocalTime.epochSeconds, CivilTime.ofMicros,
    Calendar.toDays_ofDays, hfraction]
  omega

theorem localText_toList (hlow : 0 ≤ (CivilTime.ofMicros micros).date.year)
    (hhigh : (CivilTime.ofMicros micros).date.year ≤ 9999) :
    (localText micros).toList = (CivilTime.ofMicros micros).dateText ++ 'T' ::
      ((CivilTime.ofMicros micros).minuteText ++ (CivilTime.ofMicros micros).secondText) := by
  have hfraction := (isFraction_ofMicros micros).text_eq
  have hyear : yearText (CivilTime.ofMicros micros).date.year =
      padded 4 (CivilTime.ofMicros micros).date.year.toNat := by
    rw [yearText, if_pos ⟨hlow, hhigh⟩]
  simp only [CivilTime.ofMicros] at hyear hfraction
  simp [localText, CivilTime.ofMicros, hyear, hfraction, dateText, minuteText, secondText]

-- The offset that a timestamp is displayed in.
def shown (timestamp : Timestamp) : Offset := timestamp.offset.getD Offset.utc

-- The date and time that it displays.
def civil (timestamp : Timestamp) : CivilTime :=
  CivilTime.ofMicros (timestamp.micros.toInt + timestamp.shown.seconds * 1000000)

theorem micros_bounds (h : timestamp.civil.Valid) :
    -62167305600000000 ≤ timestamp.micros.toInt ∧
      timestamp.micros.toInt ≤ 253402387200000000 := by
  have hbounds := epochSeconds_bounds h
  have hmicros : timestamp.civil.micros =
      timestamp.micros.toInt + timestamp.shown.seconds * 1000000 := micros_ofMicros _
  have hfraction := nanoseconds_lt h.fraction
  have hbelow := timestamp.shown.below
  have habove := timestamp.shown.above
  rw [CivilTime.micros] at hmicros
  omega

theorem display_toList (h : timestamp.civil.Valid) :
    timestamp.display.toList =
      timestamp.civil.rfc3339 'T' (offsetText timestamp.shown).toList := by
  have hbounds := micros_bounds h
  have hcalendar : timestamp.inCalendar = true := by
    have hmin : Calendar.minDay = -96465292 := by decide
    have hmax : Calendar.maxDay = 95026236 := by decide
    simp only [inCalendar, hmin, hmax, Bool.and_eq_true, decide_eq_true_eq]
    omega
  have htext : timestamp.display =
      localText (timestamp.micros.toInt + timestamp.shown.seconds * 1000000) ++
        offsetText timestamp.shown := by
    rw [display, if_pos hcalendar]
    rfl
  rw [htext, String.toList_append, localText_toList h.year_nonneg h.year_le]
  simp only [rfc3339, civil, List.append_assoc, List.cons_append]

theorem ofRfc3339?_display (h : timestamp.civil.Valid) :
    ofRfc3339? timestamp.display =
      (Offset.ofSeconds? (nearestMinute timestamp.shown)).map timestamp.civil.instant := by
  rw [ofRfc3339?, display_toList h]
  exact ofRfc3339Chars?_rfc3339 h (by decide) (offset?_offsetText _)

-- The instant is as far from the displayed one as the offsets are apart.
theorem micros_instant (h : timestamp.civil.Valid) (offset : Offset) :
    (timestamp.civil.instant offset).micros.toInt =
      timestamp.micros.toInt + (timestamp.shown.seconds - offset.seconds) * 1000000 := by
  have hbounds := micros_bounds h
  have hmicros : timestamp.civil.micros =
      timestamp.micros.toInt + timestamp.shown.seconds * 1000000 := micros_ofMicros _
  have hbelow := timestamp.shown.below
  have habove := timestamp.shown.above
  have hbelow' := offset.below
  have habove' := offset.above
  rw [instant, Int64.toInt_ofInt_of_le (by omega) (by omega)]
  omega

theorem instant_shown (h : timestamp.civil.Valid) :
    timestamp.civil.instant timestamp.shown = ⟨timestamp.micros, some timestamp.shown⟩ := by
  have hmicros := micros_instant h timestamp.shown
  rw [Int.sub_self, Int.zero_mul, Int.add_zero, Int64.toInt_inj] at hmicros
  rw [← hmicros]
  rfl

-- Printing loses nothing of the offset.
def WholeMinutes (timestamp : Timestamp) : Prop :=
  ∀ offset, timestamp.offset = some offset → offset.seconds % 60 = 0

theorem wholeMinutes_iff : timestamp.WholeMinutes ↔ timestamp.shown.seconds % 60 = 0 := by
  cases h : timestamp.offset with
  | none => simp [WholeMinutes, shown, h, Offset.utc]
  | some offset => simp [WholeMinutes, shown, h]

theorem ofRfc3339?_display_of_wholeMinutes (h : timestamp.civil.Valid)
    (hwhole : timestamp.WholeMinutes) :
    ofRfc3339? timestamp.display = some ⟨timestamp.micros, some timestamp.shown⟩ := by
  rw [ofRfc3339?_display h, nearestMinute_eq_iff.mpr (wholeMinutes_iff.mp hwhole),
    Offset.ofSeconds?_seconds, Option.map_some, instant_shown h]

theorem wholeMinutes_of_micros_eq (h : timestamp.civil.Valid) {found : Timestamp}
    (hread : ofRfc3339? timestamp.display = some found)
    (hmicros : found.micros = timestamp.micros) : timestamp.WholeMinutes := by
  rw [ofRfc3339?_display h, Option.map_eq_some_iff] at hread
  obtain ⟨offset, hoffset, rfl⟩ := hread
  have hapart := micros_instant h offset
  rw [hmicros] at hapart
  have hsame : offset.seconds = nearestMinute timestamp.shown := by
    unfold Offset.ofSeconds? at hoffset
    split_ifs at hoffset
    cases hoffset
    rfl
  rw [wholeMinutes_iff, ← nearestMinute_eq_iff]
  omega

-- What the displayed text of a timestamp is good for.
structure Shows (timestamp : Timestamp) : Prop where
  -- It names the instant, exactly if printing loses nothing of the offset.
  names_iff : (∃ found, ofRfc3339? timestamp.display = some found ∧
    found.micros = timestamp.micros) ↔ timestamp.WholeMinutes
  -- It then tells the offset as well, which is zero if there is none.
  reads : timestamp.WholeMinutes →
    ofRfc3339? timestamp.display = some ⟨timestamp.micros, some timestamp.shown⟩
  -- As the value of an option it is not taken for an option itself.
  isValue : Command.Grammar.isValue timestamp.display = true
  -- It is the instant at an end of a span to be read.
  bounds : timestamp.WholeMinutes →
    Command.timeBound (some timestamp.display) = .ok (.included timestamp.micros)
  -- It deletes the record at the instant.
  deletes : timestamp.WholeMinutes → ∀ (store : EventStore) (entity : String),
    Command.deleteRecords store entity (some timestamp.display) = (do
      let store ← (store.delete entity timestamp).mapError .store
      return (.ofOutput ["Deleted " ++ entity ++ " at " ++ timestamp.display], store))

theorem shows_display (hlow : 0 ≤ timestamp.civil.date.year)
    (hhigh : timestamp.civil.date.year ≤ 9999) : timestamp.Shows := by
  have h : timestamp.civil.Valid := valid_ofMicros hlow hhigh
  have hreads := ofRfc3339?_display_of_wholeMinutes h
  refine ⟨⟨?_, ?_⟩, hreads, ?_, ?_, ?_⟩
  · rintro ⟨found, hread, hmicros⟩
    exact wholeMinutes_of_micros_eq h hread hmicros
  · intro hwhole
    exact ⟨_, hreads hwhole, rfl⟩
  · obtain ⟨c, tail, hyear, hdigit⟩ := h.counted.year.head
    have hdash : c ≠ '-' := by
      rintro rfl
      revert hdigit
      decide
    simp [Command.Grammar.isValue, display_toList h, rfc3339, dateText, hyear, hdash]
  · intro hwhole
    simp only [Command.timeBound, Command.instant, hreads hwhole]
    rfl
  · intro hwhole store entity
    have hdisplay : display ⟨timestamp.micros, some timestamp.shown⟩ = timestamp.display := rfl
    simp only [Command.deleteRecords, Command.instant, hreads hwhole]
    rfl

-- A quarter past eight in the evening at an hour ahead of UTC, and just before
-- 1970 at half an hour behind it.
theorem shows_display_examples :
    Shows ⟨1709320500000000, some ⟨3600, by decide, by decide⟩⟩ ∧
      Shows ⟨-1, some ⟨-1800, by decide, by decide⟩⟩ :=
  ⟨shows_display (by decide) (by decide), shows_display (by decide) (by decide)⟩

-- The seconds of an offset are lost, and the text names another instant.
example : display ⟨0, some ⟨29, by decide, by decide⟩⟩ = "1970-01-01T00:00:29+00:00" := by decide

end Timestamp

end Chronicle
