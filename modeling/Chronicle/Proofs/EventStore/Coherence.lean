import Chronicle.Proofs.EventStore.Policy
import Chronicle.Proofs.Records.Step
import Chronicle.Proofs.Storage.Isolation

-- The ways to look at a store agree: a record is looked up or it is read within a span
-- of one instant, the latest is the last that is read, and a snapshot shows what the
-- store does. The values in the table may be any bytes.

namespace Chronicle

-- The span of a single instant.
def TimeSpan.at (micros : Int64) : TimeSpan := ⟨.included micros, .included micros⟩

theorem TimeSpan.contains_at {micros other : Int64} :
    (TimeSpan.at micros).contains other = true ↔ other = micros := by
  simp only [contains, TimeSpan.at, TimeBound.isBelow, TimeBound.isAbove, Bool.and_eq_true,
    decide_eq_true_eq]
  constructor
  · rintro ⟨hle, hge⟩
    exact Int64.le_antisymm hge hle
  · rintro rfl
    exact ⟨Int64.le_refl _, Int64.le_refl _⟩

-- Every live key is one that a record can have.
def Table.HasRecordKeys (table : Table) : Prop :=
  ∀ entry ∈ table.liveEntries, ∃ key, RecordKey.decode entry.1 = .ok key

-- Only the key of the instant is within the keys of its span.
theorem Table.HasRecordKeys.liveIn_at {table : Table} (h : table.HasRecordKeys) {entity : String}
    (hentity : RecordKey.IsEntity entity) (micros : Int64) :
    let key := (RecordKey.mk entity micros).keyBytes
    table.liveIn ((TimeSpan.at micros).keyRange (RecordKey.frontBytes entity)) =
      match table.value? key with
      | none => []
      | some value => [(key, value)] := by
  intro key
  let range := (TimeSpan.at micros).keyRange (RecordKey.frontBytes entity)
  have hkeys : (TimeSpan.at micros).keys entity = .ok range :=
    TimeSpan.keys_of_isEntity (TimeSpan.at micros) hentity
  have hkey : range.contains key = true := by
    apply (TimeSpan.contains_keys_iff hkeys hentity).mpr
    exact ⟨rfl, TimeSpan.contains_at.mpr rfl⟩
  have honly : ∀ entry ∈ table.liveIn range, entry.1 = key := by
    intro entry hentry
    obtain ⟨hlive, hcontains⟩ := Table.mem_liveIn.mp hentry
    obtain ⟨other, hother⟩ := h entry hlive
    obtain ⟨hvalid, hbytes⟩ := RecordKey.decode_eq_ok.mp hother
    rw [hbytes] at hcontains ⊢
    obtain ⟨hsame, hinstant⟩ := (TimeSpan.contains_keys_iff hkeys hvalid).mp hcontains
    have hmicros := TimeSpan.contains_at.mp hinstant
    cases other
    cases hsame
    cases hmicros
    rfl
  cases hvalue : table.value? key with
  | none =>
      apply List.eq_nil_iff_forall_not_mem.mpr
      intro entry hentry
      have hlive := (Table.mem_liveIn.mp hentry).1
      exact Table.value?_eq_none_iff.mp hvalue entry hlive (honly entry hentry)
  | some value =>
      refine (table.ascending_liveIn range).eq_of_mem_iff (List.pairwise_singleton _ _) ?_
      intro entry
      rw [List.mem_singleton]
      constructor
      · intro hentry
        have hfound := Table.value?_eq_some_iff.mpr (Table.mem_liveIn.mp hentry).1
        rw [honly entry hentry, hvalue] at hfound
        exact Prod.ext (honly entry hentry) (Option.some.inj hfound).symm
      · rintro rfl
        exact Table.mem_liveIn.mpr ⟨Table.value?_eq_some_iff.mp hvalue, hkey⟩

namespace Records

-- What a read answers from first to last, and how many entries it has stepped over by
-- then.
structure Yields (records : Records) (items : List (Except StoreError Record))
    (skipped : Nat) : Prop where
  answered : ∀ calls, (records.after calls).next.1 = items[calls]?
  skipped_le : ∀ calls, (records.after calls).skipped ≤ skipped
  skipped_eq : ∀ calls, items.length < calls → (records.after calls).skipped = skipped

section Few

variable {table : Table} {pageSize : Nat} {range : KeyRange} {reader : Reader}

-- Where a range has no more entries than a page can hold, the rest of the table and the
-- size of the pages do not matter.
theorem seen_start (hfew : (table.liveIn range).length ≤ Snapshot.maxPage) (calls : Nat) :
    (start (Scan.start (Snapshot.ofTable table pageSize) range) reader).seen calls =
      ((reader.answers (table.liveIn range))[calls]?,
        (reader.lookedAt calls (table.liveIn range)).countP reader.stepsOver) := by
  have hroom : (Snapshot.ofTable (table.within range) pageSize).HasRoom := by
    refine .inr ?_
    rw [← Table.size_within] at hfew
    exact hfew
  have hparallel : Parallel
      (start (Scan.start (Snapshot.ofTable table pageSize) range) reader)
      (start (Scan.start (Snapshot.ofTable (table.within range) pageSize) range) reader) :=
    ⟨Scan.parallel_start fun key hkey => (table.value?_within hkey).symm, rfl, rfl, rfl⟩
  have hsame : (table.within range).liveIn range = table.liveIn range :=
    Table.liveIn_congr fun key hkey => table.value?_within hkey
  rw [hparallel.seen_eq (bounded_start _ _ _) (bounded_start _ _ _), seen,
    next_after_start hroom, skipped_after_start hroom, hsame]

theorem yields_of_empty (h : table.liveIn range = []) :
    (start (Scan.start (Snapshot.ofTable table pageSize) range) reader).Yields [] 0 := by
  have hseen : ∀ calls,
      (start (Scan.start (Snapshot.ofTable table pageSize) range) reader).seen calls =
        (none, 0) := by
    intro calls
    rw [seen_start (by simp [h]), h]
    cases calls <;> rfl
  refine ⟨fun calls => ?_, fun calls => ?_, fun calls _ => ?_⟩
  · exact congrArg Prod.fst (hseen calls)
  · exact Nat.le_of_eq (congrArg Prod.snd (hseen calls))
  · exact congrArg Prod.snd (hseen calls)

-- A single entry is answered or it is stepped over.
theorem yields_of_single {entry : Bytes × Bytes} (h : table.liveIn range = [entry]) :
    (start (Scan.start (Snapshot.ofTable table pageSize) range) reader).Yields
      (reader.answers [entry]) (if reader.stepsOver entry then 1 else 0) := by
  have hfew : (table.liveIn range).length ≤ Snapshot.maxPage := by
    have hone : 1 ≤ Snapshot.maxPage := by decide
    rw [h]
    exact hone
  have hlooked : ∀ calls, reader.lookedAt (calls + 1) [entry] = [entry] := by
    intro calls
    obtain ⟨key, value⟩ := entry
    cases hdecode : reader.decode key value with
    | ok record => cases calls <;> simp [Reader.lookedAt, hdecode]
    | error error => simp [Reader.lookedAt, hdecode]
  have hseen : ∀ calls,
      (start (Scan.start (Snapshot.ofTable table pageSize) range) reader).seen calls =
        ((reader.answers [entry])[calls]?,
          (reader.lookedAt calls [entry]).countP reader.stepsOver) := by
    intro calls
    rw [seen_start hfew, h]
  have hskipped : ∀ calls,
      ((start (Scan.start (Snapshot.ofTable table pageSize) range) reader).after
        (calls + 1)).skipped = if reader.stepsOver entry then 1 else 0 := by
    intro calls
    have hcount := congrArg Prod.snd (hseen (calls + 1))
    rw [hlooked, List.countP_singleton] at hcount
    exact hcount
  refine ⟨fun calls => ?_, fun calls => ?_, fun calls hcalls => ?_⟩
  · exact congrArg Prod.fst (hseen calls)
  · cases calls with
    | zero => exact Nat.zero_le _
    | succ calls => exact Nat.le_of_eq (hskipped calls)
  · cases calls with
    | zero => omega
    | succ calls => exact hskipped calls

end Few

-- A read that nothing ends comes to all entries of its range.
theorem yields_of_passes {table : Table} {pageSize : Nat} {range : KeyRange}
    {reader : Reader} (hroom : (Snapshot.ofTable table pageSize).HasRoom)
    (h : ∀ entry ∈ table.liveIn range, reader.Passes entry) :
    (start (Scan.start (Snapshot.ofTable table pageSize) range) reader).Yields
      (reader.answers (table.liveIn range)) ((table.liveIn range).countP reader.stepsOver) := by
  refine ⟨next_after_start hroom, fun calls => ?_, fun calls hcalls => ?_⟩
  · rw [skipped_after_start hroom]
    exact (reader.prefix_lookedAt calls _).sublist.countP_le
  · rw [skipped_after_start hroom, Reader.lookedAt_of_lt h hcalls]

end Records

namespace EventStore

-- What is found of a single instant, as the answers of a read.
def pointItems : Except StoreError (Option Record) → List (Except StoreError Record)
  | .ok none => []
  | .ok (some record) => [.ok record]
  | .error error => [.error error]

@[simp] theorem pointItems_ok {record : Record} :
    pointItems ((Except.ok record).map some) = [.ok record] := rfl

@[simp] theorem pointItems_error {error : StoreError} :
    pointItems ((Except.error error).map some) = [.error error] := rfl

-- A snapshot that is taken at a moment shows what the store does.
structure Pictures (store : EventStore) (moment : Session) (name : String) : Prop where
  get_eq : ∀ key, (moment.step (.takeSnapshot name)).2.answer (.snapshotGet name key) =
    moment.answer (.get key)
  scan_eq : ∀ range, (moment.step (.takeSnapshot name)).2.answer (.snapshotScan name range) =
    moment.answer (.scan range)
  view : ∃ shown, (moment.step (.takeSnapshot name)).2.Shows (.borrowed name) shown ∧
    (∀ entity timestamp,
      (StoreView.mk shown store.reader).get? entity timestamp = store.get? entity timestamp) ∧
    ∀ entity span, (StoreView.mk shown store.reader).read entity span = store.read entity span

-- The ways to look at an entity agree.
structure Coherent (store : EventStore) (entity : String) (timestamp : Timestamp) : Prop where
  strict : store.reader.policy = .strict → ∃ records,
    store.read entity (TimeSpan.at timestamp.micros) = .ok records ∧
    records.Yields (pointItems (store.get? entity timestamp)) 0
  -- An error of what is stored is counted and not answered.
  skip : store.reader.policy = .skip → ∃ records,
    store.read entity (TimeSpan.at timestamp.micros) = .ok records ∧
    (∀ error, store.get? entity timestamp = .error error → error.isSkippable = true →
      records.Yields [] 1) ∧
    ((∀ error, store.get? entity timestamp = .error error → error.isSkippable = false) →
      records.Yields (pointItems (store.get? entity timestamp)) 0)
  latest : ∃ records, ∃ items : List (Except StoreError Record),
    store.read entity TimeSpan.always = .ok records ∧
    (∀ calls, (records.after calls).next.1 = items[calls]?) ∧
    (∀ found : List Record, items = found.map .ok →
      store.latest? entity = .ok found.getLast?) ∧
    ∀ (found : List Record) error rest, items = found.map .ok ++ .error error :: rest →
      store.latest? entity = .error error
  snapshot : ∀ directory before name,
    ((Session.start directory).run before).store = some store.storage →
      store.Pictures ((Session.start directory).run before) name

variable {store : EventStore} {entity : String}

theorem point_cases (hkeys : store.storage.table.HasRecordKeys)
    (hentity : RecordKey.IsEntity entity) (timestamp : Timestamp) :
    ∃ records, store.read entity (TimeSpan.at timestamp.micros) = .ok records ∧
      ((store.get? entity timestamp = .ok none ∧ records.Yields [] 0) ∨
        ∃ entry, store.get? entity timestamp =
            (store.reader.decode entry.1 entry.2).map some ∧
          records.Yields (store.reader.answers [entry])
            (if store.reader.stepsOver entry then 1 else 0)) := by
  let span := TimeSpan.at timestamp.micros
  have hrange := TimeSpan.keys_of_isEntity span hentity
  have hread : store.read entity span = .ok (Records.start (Scan.start store.storage.snapshot
      (span.keyRange (RecordKey.frontBytes entity))) store.reader) :=
    StoreView.read_eq_ok.mpr ⟨_, hrange, rfl⟩
  have hget : store.get? entity timestamp = _ := get?_of_isEntity hentity timestamp
  have hlive := hkeys.liveIn_at hentity timestamp.micros
  refine ⟨_, hread, ?_⟩
  cases hvalue : store.storage.table.value? (RecordKey.mk entity timestamp.micros).keyBytes with
  | none =>
      simp only [hvalue] at hlive hget
      exact .inl ⟨hget, Records.yields_of_empty hlive⟩
  | some value =>
      simp only [hvalue] at hlive hget
      exact .inr ⟨(_, value), hget, Records.yields_of_single hlive⟩

theorem strict_point (hkeys : store.storage.table.HasRecordKeys)
    (hentity : RecordKey.IsEntity entity) (timestamp : Timestamp)
    (hpolicy : store.reader.policy = .strict) :
    ∃ records, store.read entity (TimeSpan.at timestamp.micros) = .ok records ∧
      records.Yields (pointItems (store.get? entity timestamp)) 0 := by
  obtain ⟨records, hread, hpoint⟩ := point_cases hkeys hentity timestamp
  refine ⟨records, hread, ?_⟩
  rcases hpoint with ⟨hnone, hyields⟩ | ⟨entry, hfound, hyields⟩
  · rw [hnone]
    exact hyields
  · rw [Reader.stepsOver_of_strict hpolicy, Reader.answers_of_strict hpolicy] at hyields
    rw [hfound]
    cases hdecode : store.reader.decode entry.1 entry.2 with
    | ok record => simpa [Reader.outcomes, untilError, hdecode] using hyields
    | error error => simpa [Reader.outcomes, untilError, hdecode] using hyields

theorem skip_point (hkeys : store.storage.table.HasRecordKeys)
    (hentity : RecordKey.IsEntity entity) (timestamp : Timestamp)
    (hpolicy : store.reader.policy = .skip) :
    ∃ records, store.read entity (TimeSpan.at timestamp.micros) = .ok records ∧
      (∀ error, store.get? entity timestamp = .error error → error.isSkippable = true →
        records.Yields [] 1) ∧
      ((∀ error, store.get? entity timestamp = .error error → error.isSkippable = false) →
        records.Yields (pointItems (store.get? entity timestamp)) 0) := by
  obtain ⟨records, hread, hpoint⟩ := point_cases hkeys hentity timestamp
  refine ⟨records, hread, ?_⟩
  rcases hpoint with ⟨hnone, hyields⟩ | ⟨⟨key, value⟩, hfound, hyields⟩
  · rw [hnone]
    exact ⟨fun error herror => by contradiction, fun _ => hyields⟩
  · rw [hfound]
    cases hdecode : store.reader.decode key value with
    | ok record =>
        refine ⟨fun error herror => by contradiction, fun _ => ?_⟩
        simpa [Reader.answers, Reader.stepsOver, hdecode] using hyields
    | error other =>
        have hskips : store.reader.skips other = other.isSkippable := by
          simp [Reader.skips, hpolicy]
        simp only [Reader.answers, Reader.stepsOver, hdecode, hskips] at hyields
        refine ⟨?_, ?_⟩
        · intro error herror hskippable
          cases herror
          simpa [hskippable] using hyields
        · intro hall
          have hkept : other.isSkippable = false := hall other rfl
          simpa [hkept] using hyields

theorem latest_of_read (hentity : RecordKey.IsEntity entity) :
    ∃ records, ∃ items : List (Except StoreError Record),
      store.read entity TimeSpan.always = .ok records ∧
      (∀ calls, (records.after calls).next.1 = items[calls]?) ∧
      (∀ found : List Record, items = found.map .ok →
        store.latest? entity = .ok found.getLast?) ∧
      ∀ (found : List Record) error rest, items = found.map .ok ++ .error error :: rest →
        store.latest? entity = .error error := by
  let records := Records.start (Scan.start store.storage.snapshot
    (TimeSpan.always.keyRange (RecordKey.frontBytes entity))) store.reader
  have hread : store.view.read entity TimeSpan.always = .ok records :=
    StoreView.read_eq_ok.mpr ⟨_, TimeSpan.keys_of_isEntity TimeSpan.always hentity, rfl⟩
  have hlatest : store.latest? entity =
      records.toEnd.1.foldlM (fun _ answer => answer.map some) none := by
    rw [EventStore.latest?, StoreView.latest?, hread, ok_bind]
  have hpos : 0 < records.scan.snapshot.pageSize :=
    Nat.lt_of_lt_of_le Nat.one_pos (Nat.le_max_right _ _)
  refine ⟨records, records.toEnd.1, hread, ?_, ?_, ?_⟩
  · exact Records.next_after_toEnd hpos (Records.bounded_start _ _ _)
  · intro found hitems
    rw [hlatest, hitems, foldlM_answers_of_ok, Option.or_none]
  · intro found error rest hitems
    rw [hlatest, hitems, foldlM_answers_of_error]

theorem pictures_of_tidy {moment : Session} (htidy : moment.Tidy)
    (hstore : moment.store = some store.storage) (name : String) : store.Pictures moment name := by
  have hshows := htidy.takeSnapshot hstore name
  refine ⟨fun key => ?_, fun range => ?_, store.storage.snapshot, hshows, fun _ _ => rfl,
    fun _ _ => rfl⟩
  · rw [htidy.answer_get hstore, hshows.answer_get]
    rfl
  · rw [htidy.answer_scan hstore, hshows.answer_scan]

-- Whatever the values in a table are, it looks the same from all sides.
theorem coherent_of_recordKeys (hkeys : store.storage.table.HasRecordKeys)
    (hentity : RecordKey.IsEntity entity) (timestamp : Timestamp) :
    store.Coherent entity timestamp :=
  ⟨strict_point hkeys hentity timestamp, skip_point hkeys hentity timestamp,
    latest_of_read hentity, fun directory before name hstore =>
      pictures_of_tidy ((Session.tidy_start directory).run before) hstore name⟩

-- The only entry is damaged and stands at the end of time.
theorem coherent_of_damaged :
    let last : Timestamp := ⟨Int64.maxValue, none⟩
    let storage : Storage := ⟨"notes", .fresh, .default⟩
    let store : EventStore :=
      ⟨storage.put (RecordKey.mk "e" last.micros).keyBytes [7], ⟨∅, .preserve, .skip⟩⟩
    store.storage.table.HasRecordKeys ∧ RecordKey.IsEntity "e" ∧ store.Coherent "e" last ∧
      ∃ records, store.read "e" (TimeSpan.at last.micros) = .ok records ∧
        records.Yields [] 1 := by
  intro last storage store
  have hentity : RecordKey.IsEntity "e" := by decide
  have hlive : store.storage.table.liveEntries =
      [((RecordKey.mk "e" last.micros).keyBytes, [7])] := by
    decide +kernel
  have hkeys : store.storage.table.HasRecordKeys := by
    intro entry hentry
    rw [hlive, List.mem_singleton] at hentry
    cases hentry
    exact ⟨⟨"e", last.micros⟩, RecordKey.decode_eq_ok.mpr ⟨hentity, rfl⟩⟩
  have hcoherent : store.Coherent "e" last := coherent_of_recordKeys hkeys hentity last
  have hfailed : store.get? "e" last = .error (.record (.corrupt (.tooShort 1))) := by
    rw [get?_of_isEntity hentity]
    decide +kernel
  obtain ⟨records, hread, hcounted, _⟩ := hcoherent.skip rfl
  have hyields : records.Yields [] 1 := hcounted _ hfailed rfl
  exact ⟨hkeys, hentity, hcoherent, records, hread, hyields⟩

end EventStore

end Chronicle
