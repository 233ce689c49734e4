import Chronicle.Proofs.Import.Validation

-- What becomes of each candidate of a batch. Candidates are judged one after the other,
-- and a judgment depends on those before it through the records that were accepted, and
-- through nothing else.

namespace Chronicle

-- Two records of one entity at one instant, however the instants are displayed.
def Record.Clashes (record other : Record) : Prop :=
  record.entity = other.entity ∧ record.timestamp.micros = other.timestamp.micros

theorem Record.clashes_iff {record other : Record} :
    record.Clashes other ↔ RecordKey.of record = RecordKey.of other := by
  simp [Clashes, RecordKey.of]

namespace Import

-- A candidate and its outcome.
structure Judged where
  candidate : Candidate
  outcome : Except Reason Record

namespace Judged

def accepted? (judged : Judged) : Option Record := judged.outcome.toOption

def rejected? (judged : Judged) : Option Rejection :=
  match judged.outcome with
  | .ok _ => none
  | .error reason => some ⟨judged.candidate.index, judged.candidate.entry, reason⟩

@[simp] theorem accepted?_ok (candidate : Candidate) (record : Record) :
    accepted? ⟨candidate, .ok record⟩ = some record := rfl

@[simp] theorem accepted?_error (candidate : Candidate) (reason : Reason) :
    accepted? ⟨candidate, .error reason⟩ = none := rfl

@[simp] theorem rejected?_ok (candidate : Candidate) (record : Record) :
    rejected? ⟨candidate, .ok record⟩ = none := rfl

@[simp] theorem rejected?_error (candidate : Candidate) (reason : Reason) :
    rejected? ⟨candidate, .error reason⟩ = some ⟨candidate.index, candidate.entry, reason⟩ := rfl

end Judged

-- The others have no record.
theorem filterMap_filter_accepted (judged : List Judged) :
    (judged.filter (·.accepted?.isSome)).filterMap Judged.accepted? =
      judged.filterMap Judged.accepted? := by
  rw [List.filterMap_filter]
  congr 1
  funext one
  cases one.accepted? <;> rfl

def Reason.isDuplicate : Reason → Bool
  | .duplicate _ _ _ => true
  | _ => false

def Validation.ofJudged (judged : List Judged) : Validation :=
  ⟨judged.filterMap Judged.accepted?, judged.filterMap Judged.rejected?⟩

namespace Importer

-- A candidate becomes a record when it is all there is.
def Admits (importer : Importer) (schema : Schema) (candidate : Candidate)
    (record : Record) : Prop :=
  importer.validate ⟨schema.kind, [candidate], []⟩ schema = .ok ⟨[record], []⟩

-- A candidate is rejected even when it is all there is.
def Fails (importer : Importer) (schema : Schema) (candidate : Candidate)
    (reason : Reason) : Prop :=
  importer.validate ⟨schema.kind, [candidate], []⟩ schema =
    .ok ⟨[], [⟨candidate.index, candidate.entry, reason⟩]⟩

-- How a candidate is judged after others: as it would be alone, unless its record
-- clashes with one that was accepted before.
structure Follows (importer : Importer) (schema : Schema) (before : List Judged)
    (judged : Judged) : Prop where
  accepted_iff : ∀ record, judged.outcome = .ok record ↔
    importer.Admits schema judged.candidate record ∧
      ∀ first ∈ before, ∀ other, first.outcome = .ok other → ¬ other.Clashes record
  duplicate_iff : ∀ entity timestamp index,
    judged.outcome = .error (.duplicate entity timestamp index) ↔
      ∃ record, importer.Admits schema judged.candidate record ∧
        entity = record.entity ∧ timestamp = record.timestamp ∧
        ∃ first ∈ before, ∃ other, first.outcome = .ok other ∧ other.Clashes record ∧
          index = first.candidate.index
  failed_iff : ∀ reason, reason.isDuplicate = false →
    (judged.outcome = .error reason ↔ importer.Fails schema judged.candidate reason)

-- A batch is divided into records and rejections, candidate by candidate, and a
-- candidate that is rejected leaves no trace on the others.
structure Divides (importer : Importer) (schema : Schema) (batch : Batch)
    (validation : Validation) (judged : List Judged) : Prop where
  candidates_eq : judged.map (·.candidate) = batch.candidates
  accepted_eq : validation.accepted = judged.filterMap Judged.accepted?
  rejected_eq : validation.rejected = judged.filterMap Judged.rejected?
  total_eq : validation.total = batch.candidates.length
  apart : validation.accepted.Pairwise fun first second => ¬ first.Clashes second
  follows : ∀ before one after, judged = before ++ one :: after →
    importer.Follows schema before one
  without : ∀ kept : List Judged, kept.Sublist judged →
    kept.filterMap Judged.accepted? = validation.accepted →
      importer.validate ⟨batch.kind, kept.map (·.candidate), batch.notes⟩ schema =
        .ok ⟨validation.accepted, kept.filterMap Judged.rejected?⟩
  again : ∀ other : Batch, other.kind = batch.kind →
    other.candidates.map (·.entry) =
      (judged.filter (·.accepted?.isSome)).map (·.candidate.entry) →
    importer.validate other schema = .ok ⟨validation.accepted, []⟩

variable {importer : Importer} {schema : Schema} {sources : List Source}
  {seen : List (RecordKey × Nat)} {entry : Json} {record : Record} {reason : Reason}

section Records

variable {config : Config}

theorem isDuplicate_of_entity (h : entity config entry = .error reason) :
    reason.isDuplicate = false := by
  unfold entity at h
  split at h
  · cases h
    rfl
  · split at h
    · cases h
      rfl
    · contradiction

theorem isDuplicate_of_timestamp (h : importer.timestamp entry = .error reason) :
    reason.isDuplicate = false := by
  simp only [timestamp] at h
  split at h
  · cases h
    rfl
  · split at h
    · contradiction
    · cases h
      rfl

theorem isDuplicate_of_field? {source : Source} (h : importer.field? entry source = .error reason) :
    reason.isDuplicate = false := by
  simp only [field?] at h
  split at h
  · split at h
    · contradiction
    · cases h
      rfl
  · split at h
    · contradiction
    · split at h
      · cases h
        rfl
      · contradiction

-- What is wrong with an entry itself is never that there is another.
theorem isDuplicate_of_record (h : importer.record schema sources entry = .error reason) :
    reason.isDuplicate = false := by
  cases entry with
  | object members =>
      simp only [Importer.record] at h
      rcases bind_eq_error.mp h with hentity | ⟨entity, _, h⟩
      · exact isDuplicate_of_entity hentity
      · rcases bind_eq_error.mp h with htimestamp | ⟨timestamp, _, h⟩
        · exact isDuplicate_of_timestamp htimestamp
        · rcases bind_eq_error.mp h with hfields | ⟨fields, _, h⟩
          · obtain ⟨source, _, hfield⟩ := exists_error_of_mapM hfields
            exact isDuplicate_of_field? hfield
          · contradiction
  | _ =>
      cases h
      rfl

end Records

section Verdicts

theorem verdict_eq_ok_iff :
    importer.verdict schema sources seen entry = .ok record ↔
      importer.record schema sources entry = .ok record ∧
        ∀ first ∈ seen, first.1 ≠ RecordKey.of record :=
  ⟨verdict_eq_ok, fun h => verdict_of_record h.1 h.2⟩

theorem verdict_eq_ok_iff_not_mem :
    importer.verdict schema sources seen entry = .ok record ↔
      importer.record schema sources entry = .ok record ∧
        RecordKey.of record ∉ seen.map (·.1) := by
  rw [verdict_eq_ok_iff]
  refine and_congr_right fun _ => ⟨fun hnew hmem => ?_, fun hnew first hfirst hkey => ?_⟩
  · obtain ⟨first, hfirst, hkey⟩ := List.mem_map.mp hmem
    exact hnew first hfirst hkey
  · exact hnew (hkey ▸ List.mem_map_of_mem hfirst)

theorem verdict_nil (entry : Json) :
    importer.verdict schema sources [] entry = importer.record schema sources entry := by
  unfold verdict
  cases importer.record schema sources entry <;> rfl

theorem verdict_eq_error_iff :
    importer.verdict schema sources seen entry = .error reason ↔
      importer.record schema sources entry = .error reason ∨
        ∃ record first, importer.record schema sources entry = .ok record ∧
          seen.find? (fun first => first.1 = RecordKey.of record) = some first ∧
          reason = .duplicate record.entity record.timestamp first.2 := by
  unfold verdict
  cases hrecord : importer.record schema sources entry with
  | error other => simp
  | ok record =>
      rw [ok_bind]
      cases hfind : seen.find? (fun first => first.1 = RecordKey.of record) with
      | none => simp [hfind]
      | some first =>
          obtain ⟨key, index⟩ := first
          simp [hfind, eq_comm]

end Verdicts

-- The keys that have been seen after one more candidate.
def note (seen : List (RecordKey × Nat)) (judged : Judged) : List (RecordKey × Nat) :=
  match judged.outcome with
  | .ok record => (RecordKey.of record, judged.candidate.index) :: seen
  | .error _ => seen

def judge (importer : Importer) (schema : Schema) (sources : List Source) :
    (seen : List (RecordKey × Nat)) → List Candidate → List Judged
  | _, [] => []
  | seen, candidate :: rest =>
      let judged := ⟨candidate, importer.verdict schema sources seen candidate.entry⟩
      judged :: judge importer schema sources (note seen judged) rest

variable {candidates : List Candidate} {before after : List Judged} {one : Judged}

theorem validateFrom_eq_ofJudged (candidates : List Candidate) :
    importer.validateFrom schema sources seen candidates =
      .ofJudged (importer.judge schema sources seen candidates) := by
  induction candidates generalizing seen with
  | nil => rfl
  | cons candidate rest ih =>
      rw [validateFrom, judge]
      cases hverdict : importer.verdict schema sources seen candidate.entry with
      | ok record => simp [ih, Validation.ofJudged, note, List.filterMap_cons]
      | error reason => simp [ih, Validation.ofJudged, note, List.filterMap_cons]

theorem map_candidate_judge (candidates : List Candidate) :
    (importer.judge schema sources seen candidates).map (·.candidate) = candidates := by
  induction candidates generalizing seen with
  | nil => rfl
  | cons candidate rest ih => rw [judge, List.map_cons, ih]

theorem mem_note {first : RecordKey × Nat} :
    first ∈ note seen one ↔ first ∈ seen ∨
      ∃ record, one.outcome = .ok record ∧ first = (RecordKey.of record, one.candidate.index) := by
  unfold note
  cases one.outcome with
  | ok record => simp [or_comm]
  | error reason => simp

theorem mem_foldl_note {first : RecordKey × Nat} :
    first ∈ before.foldl note seen ↔ first ∈ seen ∨ ∃ one ∈ before, ∃ record,
      one.outcome = .ok record ∧ first = (RecordKey.of record, one.candidate.index) := by
  induction before generalizing seen with
  | nil => simp
  | cons one rest ih => rw [List.foldl_cons, ih, mem_note, or_assoc, List.exists_mem_cons_iff]

-- A candidate is judged by the keys of those before it, none of which was seen twice.
theorem outcome_of_judge (hseen : (seen.map (·.1)).Nodup)
    (h : importer.judge schema sources seen candidates = before ++ one :: after) :
    one.outcome = importer.verdict schema sources (before.foldl note seen) one.candidate.entry ∧
      ((before.foldl note seen).map (·.1)).Nodup := by
  induction before generalizing seen candidates with
  | nil =>
      cases candidates with
      | nil => contradiction
      | cons candidate rest =>
          rw [judge, List.nil_append] at h
          cases h
          exact ⟨rfl, hseen⟩
  | cons first before ih =>
      cases candidates with
      | nil => contradiction
      | cons candidate rest =>
          rw [judge, List.cons_append] at h
          obtain ⟨rfl, hrest⟩ := List.cons.inj h
          refine ih ?_ hrest
          unfold note
          split
          · rename_i record hrecord
            refine List.nodup_cons.mpr ⟨fun hmem => ?_, hseen⟩
            obtain ⟨other, hother, hkey⟩ := List.mem_map.mp hmem
            exact (verdict_eq_ok hrecord).2 other hother hkey
          · exact hseen

-- By induction on the candidates: one that is rejected leaves the keys as they were.
theorem judge_of_sublist {kept : List Judged}
    (h : kept.Sublist (importer.judge schema sources seen candidates))
    (haccepted : kept.filterMap Judged.accepted? =
      (importer.judge schema sources seen candidates).filterMap Judged.accepted?) :
    importer.judge schema sources seen (kept.map (·.candidate)) = kept := by
  induction candidates generalizing seen kept with
  | nil =>
      rw [List.sublist_nil.mp h]
      rfl
  | cons candidate rest ih =>
      rw [judge] at h haccepted
      cases h with
      | cons _ hrest =>
          cases hverdict : importer.verdict schema sources seen candidate.entry with
          | error reason =>
              rw [hverdict] at hrest haccepted
              exact ih hrest haccepted
          | ok record =>
              -- A record that is left out is missed.
              rw [hverdict] at hrest haccepted
              have hfewer := (hrest.filterMap Judged.accepted?).length_le
              rw [haccepted, List.filterMap_cons, Judged.accepted?_ok, List.length_cons] at hfewer
              exact absurd hfewer (Nat.not_succ_le_self _)
      | cons_cons _ hrest =>
          rw [List.map_cons, judge]
          refine congrArg _ (ih hrest ?_)
          cases hverdict : importer.verdict schema sources seen candidate.entry with
          | error reason => simpa [hverdict, List.filterMap_cons] using haccepted
          | ok record => simpa [hverdict, List.filterMap_cons] using haccepted

-- The indices are for reports only.
theorem accepted_of_entries {seen seen' : List (RecordKey × Nat)}
    {candidates candidates' : List Candidate} (hseen : seen.map (·.1) = seen'.map (·.1))
    (hentries : candidates.map (·.entry) = candidates'.map (·.entry)) :
    (importer.validateFrom schema sources seen candidates).accepted =
      (importer.validateFrom schema sources seen' candidates').accepted := by
  induction candidates generalizing seen seen' candidates' with
  | nil =>
      rw [List.map_eq_nil_iff.mp hentries.symm]
      rfl
  | cons candidate rest ih =>
      cases candidates' with
      | nil => contradiction
      | cons candidate' rest' =>
          obtain ⟨hentry, hrest⟩ := List.cons.inj hentries
          have hverdict : ∀ record,
              importer.verdict schema sources seen candidate.entry = .ok record ↔
                importer.verdict schema sources seen' candidate'.entry = .ok record := by
            have hsame : candidate.entry = candidate'.entry := hentry
            intro record
            rw [verdict_eq_ok_iff_not_mem, verdict_eq_ok_iff_not_mem, hsame, hseen]
          rw [validateFrom, validateFrom]
          cases hnew : importer.verdict schema sources seen candidate.entry with
          | ok record =>
              rw [(hverdict record).mp hnew]
              have hseen' : ((RecordKey.of record, candidate.index) :: seen).map (·.1) =
                  ((RecordKey.of record, candidate'.index) :: seen').map (·.1) := by
                rw [List.map_cons, List.map_cons, hseen]
              exact congrArg (record :: ·) (ih hseen' hrest)
          | error reason =>
              cases hnew' : importer.verdict schema sources seen' candidate'.entry with
              | ok record =>
                  rw [(hverdict record).mpr hnew'] at hnew
                  contradiction
              | error reason' => exact ih hseen hrest

section Batches

variable {batch : Batch} {validation : Validation} {candidate : Candidate}

theorem validate_of_sources (hsources : Importer.sources importer.config schema = .ok sources)
    (hkind : batch.kind = schema.kind) :
    importer.validate batch schema =
      .ok (.ofJudged (importer.judge schema sources [] batch.candidates)) := by
  rw [validate_eq hkind, hsources, ← validateFrom_eq_ofJudged]
  rfl

theorem kind_of_validate (h : importer.validate batch schema = .ok validation) :
    batch.kind = schema.kind := by
  by_contra hne
  simp [validate, hne] at h

theorem admits_iff (hsources : Importer.sources importer.config schema = .ok sources) :
    importer.Admits schema candidate record ↔
      importer.record schema sources candidate.entry = .ok record := by
  rw [Admits, validate_of_sources hsources rfl, judge, verdict_nil]
  cases importer.record schema sources candidate.entry <;>
    simp [Validation.ofJudged, judge, List.filterMap_cons]

theorem fails_iff (hsources : Importer.sources importer.config schema = .ok sources) :
    importer.Fails schema candidate reason ↔
      importer.record schema sources candidate.entry = .error reason := by
  rw [Fails, validate_of_sources hsources rfl, judge, verdict_nil]
  cases importer.record schema sources candidate.entry <;>
    simp [Validation.ofJudged, judge, List.filterMap_cons]

-- What has been seen is what was accepted before.
theorem follows_of_verdict (hsources : Importer.sources importer.config schema = .ok sources)
    (hseen : ((before.foldl note []).map (·.1)).Nodup)
    (h : one.outcome = importer.verdict schema sources (before.foldl note []) one.candidate.entry) :
    importer.Follows schema before one := by
  have hmem : ∀ first, first ∈ before.foldl note [] ↔ ∃ one ∈ before, ∃ record,
      one.outcome = .ok record ∧ first = (RecordKey.of record, one.candidate.index) := by
    intro first
    rw [mem_foldl_note, or_iff_right List.not_mem_nil]
  refine ⟨fun record => ?_, fun entity timestamp index => ?_, fun reason hreason => ?_⟩
  · rw [h, verdict_eq_ok_iff, admits_iff hsources]
    refine and_congr_right fun _ => ⟨fun hnew first hfirst other hother hclash => ?_,
      fun hnew first hfirst hkey => ?_⟩
    · exact hnew _ ((hmem _).mpr ⟨first, hfirst, other, hother, rfl⟩)
        (Record.clashes_iff.mp hclash)
    · obtain ⟨one, hone, other, hother, rfl⟩ := (hmem first).mp hfirst
      exact hnew one hone other hother (Record.clashes_iff.mpr hkey)
  · rw [h, verdict_eq_error_iff]
    constructor
    · rintro (hfailed | ⟨record, first, hrecord, hfind, hreason⟩)
      · exact Bool.noConfusion (isDuplicate_of_record hfailed)
      · cases hreason
        obtain ⟨hfirst, hkey⟩ := (find?_key_eq_some_iff hseen).mp hfind
        obtain ⟨one, hone, other, hother, rfl⟩ := (hmem first).mp hfirst
        exact ⟨record, (admits_iff hsources).mpr hrecord, rfl, rfl, one, hone, other, hother,
          Record.clashes_iff.mpr hkey, rfl⟩
    · rintro ⟨record, hadmits, rfl, rfl, one, hone, other, hother, hclash, rfl⟩
      refine .inr ⟨record, _, (admits_iff hsources).mp hadmits, (find?_key_eq_some_iff hseen).mpr
        ⟨(hmem _).mpr ⟨one, hone, other, hother, rfl⟩, Record.clashes_iff.mp hclash⟩, rfl⟩
  · rw [h, verdict_eq_error_iff, fails_iff hsources, or_iff_left]
    rintro ⟨record, first, _, _, rfl⟩
    contradiction

-- A batch of what was accepted is accepted, whatever the indices are now.
theorem validate_again (hsources : Importer.sources importer.config schema = .ok sources)
    (hkind : batch.kind = schema.kind)
    (hentries : batch.candidates.map (·.entry) =
      ((importer.judge schema sources [] candidates).filter (·.accepted?.isSome)).map
        (·.candidate.entry)) :
    importer.validate batch schema = .ok ⟨(importer.judge schema sources [] candidates).filterMap
      Judged.accepted?, []⟩ := by
  have hkept := judge_of_sublist (List.filter_sublist (p := fun one => one.accepted?.isSome))
    (filterMap_filter_accepted (importer.judge schema sources [] candidates))
  have haccepted : (importer.validateFrom schema sources [] batch.candidates).accepted =
      (importer.judge schema sources [] candidates).filterMap Judged.accepted? := by
    have hsame : batch.candidates.map (·.entry) =
        (((importer.judge schema sources [] candidates).filter (·.accepted?.isSome)).map
          (·.candidate)).map (·.entry) := by
      rw [hentries, List.map_map]
      rfl
    rw [accepted_of_entries rfl hsame, validateFrom_eq_ofJudged, hkept]
    exact filterMap_filter_accepted _
  -- As many are accepted as there are.
  have hrejected : (importer.validateFrom schema sources [] batch.candidates).rejected = [] := by
    have htotal : (importer.validateFrom schema sources [] batch.candidates).total =
        batch.candidates.length := total_validateFrom batch.candidates
    have hlength := congrArg List.length hentries
    rw [List.length_map, List.length_map, ← List.countP_eq_length_filter,
      ← List.length_filterMap_eq_countP, ← haccepted] at hlength
    unfold Validation.total at htotal
    exact List.eq_nil_of_length_eq_zero (by omega)
  rw [validate_eq hkind, hsources]
  exact congrArg Except.ok (by rw [← haccepted, ← hrejected])

-- Every batch that is not refused is divided so.
theorem divides_validate (h : importer.validate batch schema = .ok validation) :
    ∃ judged, importer.Divides schema batch validation judged := by
  have hkind := kind_of_validate h
  have htotal := total_of_validate h
  have hkeys := nodup_keys_of_validate h
  obtain ⟨sources, hsources, hvalidation⟩ := validate_eq_ok h
  rw [validateFrom_eq_ofJudged] at hvalidation
  subst hvalidation
  refine ⟨importer.judge schema sources [] batch.candidates, ?_⟩
  exact {
    candidates_eq := map_candidate_judge batch.candidates
    accepted_eq := rfl
    rejected_eq := rfl
    total_eq := htotal
    apart := (List.pairwise_map.mp hkeys).imp fun hne hclash => hne (Record.clashes_iff.mp hclash)
    follows := by
      intro before one after hsplit
      have hnone : (([] : List (RecordKey × Nat)).map (·.1)).Nodup := List.nodup_nil
      obtain ⟨houtcome, hseen⟩ := outcome_of_judge hnone hsplit
      exact follows_of_verdict hsources hseen houtcome
    without := by
      intro kept hkept haccepted
      have hvalidate :
          importer.validate ⟨batch.kind, kept.map (·.candidate), batch.notes⟩ schema =
            .ok (.ofJudged (importer.judge schema sources [] (kept.map (·.candidate)))) :=
        validate_of_sources hsources hkind
      rw [hvalidate, judge_of_sublist hkept haccepted, ← haccepted]
      rfl
    again := fun other hother hentries =>
      validate_again hsources (hother.trans hkind) hentries }

-- A number and a text name one entity, and an instant is the same in another zone. What
-- is rejected in between has no part in it.
theorem divides_of_clash :
    let importer : Importer := ⟨.ofKind "note", ⟨none, Offset.utc⟩⟩
    let schema : Schema := ⟨"note", 1, [⟨1, "pages", .uint, true, none⟩]⟩
    let batch : Batch := ⟨"note", Importer.candidates [
      .object [("entity", .number (.int 7)), ("pages", .number (.int 3)),
        ("timestamp", .number (.int 0))],
      .object [("entity", .string "7"), ("timestamp", .number (.int 0))],
      .object [("entity", .string "7"), ("pages", .number (.int 4)),
        ("timestamp", .string "1970-01-01T01:00:00+01:00")]], []⟩
    ∃ validation judged, importer.validate batch schema = .ok validation ∧
      importer.Divides schema batch validation judged ∧
      validation.accepted.map RecordKey.of = [⟨"7", 0⟩] ∧
      validation.rejected.map (fun rejection => (rejection.index, rejection.reason.code)) =
        [(1, "missing_field"), (2, "duplicate_key")] := by
  intro importer schema batch
  have hlists : (importer.validate batch schema).map (fun validation =>
      (validation.accepted.map RecordKey.of,
        validation.rejected.map fun rejection => (rejection.index, rejection.reason.code))) =
      .ok ([⟨"7", 0⟩], [(1, "missing_field"), (2, "duplicate_key")]) := by decide +kernel
  obtain ⟨validation, hvalidate, hlists⟩ := map_eq_ok.mp hlists
  obtain ⟨haccepted, hrejected⟩ := Prod.mk.inj hlists
  obtain ⟨judged, hdivides⟩ := divides_validate hvalidate
  exact ⟨validation, judged, hvalidate, hdivides, haccepted, hrejected⟩

end Batches

end Importer

end Import

end Chronicle
