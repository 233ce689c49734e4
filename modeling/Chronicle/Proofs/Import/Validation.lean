import Chronicle.Proofs.Import.Entry

-- Batches: every entry of a document is accepted or rejected, and no two of the
-- accepted records have the same key.

namespace Chronicle.Import.Importer

variable {importer : Importer} {schema : Schema} {batch : Batch} {validation : Validation}

-- The entries of a batch are those of the array in the document.
theorem parse_eq_ok {document : String} (h : importer.parse document = .ok batch) :
    ∃ tree notes entries rest, document? importer.config.format document = some (tree, notes) ∧
      tree.take? importer.config.records = some (.array entries, rest) ∧
      batch = ⟨importer.config.kind, candidates entries, notes⟩ := by
  simp only [parse] at h
  split at h
  · contradiction
  · split at h
    · contradiction
    · rename_i tree notes hdocument
      split at h
      · contradiction
      · rename_i entries rest hentries
        cases h
        exact ⟨tree, notes, entries, rest, hdocument, hentries, rfl⟩
      · contradiction

theorem kind_of_parse {document : String} (h : importer.parse document = .ok batch) :
    batch.kind = importer.config.kind := by
  obtain ⟨_, _, _, _, _, _, rfl⟩ := parse_eq_ok h
  rfl

theorem parse_eq_error {document : String} {error : Error}
    (h : importer.parse document = .error error) :
    ∃ reason, error = .malformed importer.config.format reason := by
  simp only [parse] at h
  split at h
  · cases h
    exact ⟨_, rfl⟩
  · split at h
    · cases h
      exact ⟨_, rfl⟩
    · split at h
      · cases h
        exact ⟨_, rfl⟩
      · contradiction
      · cases h
        exact ⟨_, rfl⟩

theorem length_candidates (entries : List Json) : (candidates entries).length = entries.length := by
  simp [candidates]

theorem validate_eq (hkind : batch.kind = schema.kind) :
    importer.validate batch schema =
      (Importer.sources importer.config schema).map fun sources =>
        importer.validateFrom schema sources [] batch.candidates := by
  simp only [validate, hkind, ne_eq, not_true, if_false]
  exact bind_ok_eq_map _ _

theorem validate_eq_ok (h : importer.validate batch schema = .ok validation) :
    ∃ sources, Importer.sources importer.config schema = .ok sources ∧
      validation = importer.validateFrom schema sources [] batch.candidates := by
  unfold validate at h
  split at h
  · contradiction
  · obtain ⟨sources, hsources, h⟩ := bind_eq_ok.mp h
    cases h
    exact ⟨sources, hsources, rfl⟩

-- A schema of the kind of the batch is refused for a name or for a default.
theorem validate_eq_error {error : Error} (hkind : batch.kind = schema.kind)
    (h : importer.validate batch schema = .error error) :
    (∃ field, error = .unknownField schema.kind field) ∨
      ∃ field type, error = .config (.badDefault field type) := by
  have hsources : Importer.sources importer.config schema = .error error := by
    rw [validate_eq hkind] at h
    cases hsources : Importer.sources importer.config schema with
    | error other => simpa [hsources, Except.map] using h
    | ok sources => simp [hsources, Except.map] at h
  unfold Importer.sources at hsources
  cases hnames : checkNames importer.config schema with
  | error other =>
      rw [hnames, error_bind] at hsources
      cases hsources
      unfold checkNames at hnames
      split at hnames
      · cases hnames
        exact .inl ⟨_, rfl⟩
      · contradiction
  | ok done =>
      rw [hnames, ok_bind] at hsources
      obtain ⟨slot, _, hslot⟩ := exists_error_of_mapM hsources
      unfold Importer.source at hslot
      split at hslot
      · contradiction
      · split at hslot
        · contradiction
        · cases hslot
          exact .inr ⟨_, _, rfl⟩

section Verdicts

variable {sources : List Source} {seen : List (RecordKey × Nat)} {record : Record}

theorem verdict_eq_ok {entry : Json}
    (h : importer.verdict schema sources seen entry = .ok record) :
    importer.record schema sources entry = .ok record ∧
      ∀ first ∈ seen, first.1 ≠ RecordKey.of record := by
  obtain ⟨found, hrecord, h⟩ := bind_eq_ok.mp h
  split at h
  · contradiction
  · rename_i hnew
    cases h
    refine ⟨hrecord, fun first hfirst he => ?_⟩
    simpa [he] using List.find?_eq_none.mp hnew first hfirst

-- Each entry lands in one of the two lists.
theorem total_validateFrom (candidates : List Candidate) :
    (importer.validateFrom schema sources seen candidates).total = candidates.length := by
  induction candidates generalizing seen with
  | nil => rfl
  | cons candidate rest ih =>
      rw [validateFrom]
      cases hverdict : importer.verdict schema sources seen candidate.entry with
      | ok record =>
          have hrest := @ih ((RecordKey.of record, candidate.index) :: seen)
          simp only [Validation.total, List.length_cons] at hrest ⊢
          omega
      | error reason =>
          have hrest := @ih seen
          simp only [Validation.total, List.length_cons] at hrest ⊢
          omega

theorem conforms_of_validateFrom (hnormal : schema.Normal)
    (hsources : Importer.sources importer.config schema = .ok sources)
    (candidates : List Candidate) :
    ∀ record ∈ (importer.validateFrom schema sources seen candidates).accepted,
      Conforms schema record := by
  induction candidates generalizing seen with
  | nil => exact fun record hrecord => absurd hrecord List.not_mem_nil
  | cons candidate rest ih =>
      rw [validateFrom]
      cases hverdict : importer.verdict schema sources seen candidate.entry with
      | ok record =>
          exact List.forall_mem_cons.mpr
            ⟨conforms_of_record hnormal hsources (verdict_eq_ok hverdict).1, ih⟩
      | error reason => exact ih

-- An accepted record has a key of its own, which none before it had.
theorem keys_validateFrom (candidates : List Candidate) :
    ((importer.validateFrom schema sources seen candidates).accepted.map RecordKey.of).Nodup ∧
      ∀ record ∈ (importer.validateFrom schema sources seen candidates).accepted,
        ∀ first ∈ seen, first.1 ≠ RecordKey.of record := by
  induction candidates generalizing seen with
  | nil => exact ⟨.nil, fun record hrecord => absurd hrecord List.not_mem_nil⟩
  | cons candidate rest ih =>
      rw [validateFrom]
      cases hverdict : importer.verdict schema sources seen candidate.entry with
      | error reason => exact ih
      | ok record =>
          obtain ⟨hnodup, hother⟩ := @ih ((RecordKey.of record, candidate.index) :: seen)
          refine ⟨List.nodup_cons.mpr ⟨fun hmem => ?_, hnodup⟩, List.forall_mem_cons.mpr
            ⟨(verdict_eq_ok hverdict).2, fun later hlater first hfirst => ?_⟩⟩
          · obtain ⟨later, hlater, hkey⟩ := List.mem_map.mp hmem
            exact hother later hlater _ List.mem_cons_self hkey.symm
          · exact hother later hlater first (List.mem_cons_of_mem _ hfirst)

-- The key of an entry that has an entity and an instant.
def key? (importer : Importer) (entry : Json) : Option RecordKey := do
  let entity ← (entity importer.config entry).toOption
  let timestamp ← (importer.timestamp entry).toOption
  return ⟨entity, timestamp.micros⟩

theorem key?_of_record {entry : Json} (h : importer.record schema sources entry = .ok record) :
    importer.key? entry = some (RecordKey.of record) := by
  unfold Importer.record at h
  split at h
  · obtain ⟨entity, hentity, h⟩ := bind_eq_ok.mp h
    obtain ⟨timestamp, htimestamp, h⟩ := bind_eq_ok.mp h
    obtain ⟨fields, _, h⟩ := bind_eq_ok.mp h
    cases h
    rw [key?, hentity, htimestamp]
    rfl
  · contradiction

theorem verdict_of_record {entry : Json} (h : importer.record schema sources entry = .ok record)
    (hnew : ∀ first ∈ seen, first.1 ≠ RecordKey.of record) :
    importer.verdict schema sources seen entry = .ok record := by
  have hnone : seen.find? (fun first => first.1 = RecordKey.of record) = none := by
    simpa using hnew
  rw [verdict, h, ok_bind, hnone]
  rfl

-- By induction on the entries: when no key comes twice, nothing that has been seen stands
-- in the way, so whatever becomes a record is accepted.
theorem accepted_validateFrom {candidates : List Candidate}
    (hkeys : (candidates.filterMap fun candidate => importer.key? candidate.entry).Nodup)
    (hseen : ∀ candidate ∈ candidates, ∀ key, importer.key? candidate.entry = some key →
      ∀ first ∈ seen, first.1 ≠ key) :
    (importer.validateFrom schema sources seen candidates).accepted =
      candidates.filterMap fun candidate =>
        (importer.record schema sources candidate.entry).toOption := by
  induction candidates generalizing seen with
  | nil => rfl
  | cons candidate rest ih =>
      have hrestKeys : (rest.filterMap fun other => importer.key? other.entry).Nodup :=
        hkeys.sublist ((List.sublist_cons_self candidate rest).filterMap _)
      have hrestSeen : ∀ other ∈ rest, ∀ key, importer.key? other.entry = some key →
          ∀ first ∈ seen, first.1 ≠ key := fun other hother =>
        hseen other (List.mem_cons_of_mem _ hother)
      cases hrecord : importer.record schema sources candidate.entry with
      | error reason =>
          have hverdict : importer.verdict schema sources seen candidate.entry = .error reason := by
            rw [verdict, hrecord, error_bind]
          rw [validateFrom, hverdict, List.filterMap_cons, hrecord]
          exact ih hrestKeys hrestSeen
      | ok record =>
          have hkey := key?_of_record hrecord
          have hverdict := verdict_of_record hrecord
            (hseen candidate List.mem_cons_self _ hkey)
          rw [List.filterMap_cons, hkey, List.nodup_cons] at hkeys
          have hlater : ∀ other ∈ rest, ∀ key, importer.key? other.entry = some key →
              ∀ first ∈ (RecordKey.of record, candidate.index) :: seen, first.1 ≠ key := by
            intro other hother key hotherKey first hfirst
            rcases List.mem_cons.mp hfirst with rfl | hfirst
            · rintro rfl
              exact hkeys.1 (List.mem_filterMap.mpr ⟨other, hother, hotherKey⟩)
            · exact hrestSeen other hother key hotherKey first hfirst
          rw [validateFrom, hverdict, List.filterMap_cons, hrecord]
          exact congrArg (record :: ·) (ih hrestKeys hlater)

theorem accepted_of_perm {candidates candidates' : List Candidate}
    (hperm : (candidates.map (·.entry)).Perm (candidates'.map (·.entry)))
    (hkeys : (candidates.filterMap fun candidate => importer.key? candidate.entry).Nodup) :
    (importer.validateFrom schema sources [] candidates).accepted.Perm
      (importer.validateFrom schema sources [] candidates').accepted := by
  have hentries : ∀ {β : Type} (f : Json → Option β),
      (candidates.filterMap fun candidate => f candidate.entry).Perm
        (candidates'.filterMap fun candidate => f candidate.entry) := by
    intro β f
    have hmapped := hperm.filterMap f
    rwa [List.filterMap_map, List.filterMap_map] at hmapped
  have hkeys' : (candidates'.filterMap fun candidate => importer.key? candidate.entry).Nodup :=
    (hentries importer.key?).nodup_iff.mp hkeys
  rw [accepted_validateFrom hkeys fun _ _ _ _ first hfirst => absurd hfirst List.not_mem_nil,
    accepted_validateFrom hkeys' fun _ _ _ _ first hfirst => absurd hfirst List.not_mem_nil]
  exact hentries fun entry => (importer.record schema sources entry).toOption

end Verdicts

theorem conforms_of_validate (hnormal : schema.Normal)
    (h : importer.validate batch schema = .ok validation) :
    ∀ record ∈ validation.accepted, Conforms schema record := by
  obtain ⟨sources, hsources, rfl⟩ := validate_eq_ok h
  exact conforms_of_validateFrom hnormal hsources batch.candidates

theorem nodup_keys_of_validate (h : importer.validate batch schema = .ok validation) :
    (validation.accepted.map RecordKey.of).Nodup := by
  obtain ⟨sources, _, rfl⟩ := validate_eq_ok h
  exact (keys_validateFrom batch.candidates).1

theorem total_of_validate (h : importer.validate batch schema = .ok validation) :
    validation.total = batch.candidates.length := by
  obtain ⟨sources, _, rfl⟩ := validate_eq_ok h
  exact total_validateFrom batch.candidates

end Chronicle.Import.Importer
