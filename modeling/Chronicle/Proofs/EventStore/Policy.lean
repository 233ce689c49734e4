import Chronicle.Proofs.EventStore.Run
import Chronicle.Proofs.Registry.Upgrade

-- Reads of tables that may hold any bytes: which entries they step over, where they
-- end, and what is known of the records that they answer.

namespace Chronicle

namespace Codec

variable {registry : Registry} {unknown : UnknownFields} {bytes : Bytes}

theorem exists_schema_of_decodeAny {record : Record}
    (h : decodeAny registry unknown bytes = .ok record) :
    ∃ schema, registry.schema? record.kind record.version = some schema := by
  obtain ⟨raw, _, hreceive⟩ := bind_eq_ok.mp h
  obtain ⟨schema, hresolve, hkept⟩ := bind_eq_ok.mp hreceive
  have hschema := Registry.resolve_eq_ok.mp hresolve
  cases unknown with
  | preserve =>
      cases hkept
      exact ⟨schema, hschema⟩
  | drop =>
      cases hkept
      exact ⟨schema, hschema⟩

theorem isDecodeFailure_of_decodeAny {error : RecordError}
    (h : decodeAny registry unknown bytes = .error error) : error.isDecodeFailure = true := by
  cases hraw : decodeRaw bytes with
  | error reason =>
      rw [decodeAny, hraw] at h
      cases h
      obtain ⟨corruption, _, rfl⟩ := mapError_eq_error.mp hraw
      rfl
  | ok raw =>
      rw [decodeAny, hraw, ok_bind, receive] at h
      cases hresolve : registry.resolve raw.kind raw.version with
      | error reason =>
          rw [hresolve] at h
          cases h
          exact Registry.isDecodeFailure_of_resolve hresolve
      | ok schema =>
          rw [hresolve] at h
          cases unknown <;> contradiction

end Codec

namespace Reader

-- Whether the key or the bytes of an entry are at fault.
def isUndecodable (reader : Reader) (entry : Bytes × Bytes) : Bool :=
  match reader.decode entry.1 entry.2 with
  | .ok _ => false
  | .error error => error.isSkippable

-- The entries that are a record of a known version.
def decodable (reader : Reader) (entries : List (Bytes × Bytes)) : List (Bytes × Bytes) :=
  entries.filter fun entry => !reader.isUndecodable entry

-- What entries are decoded to, up to the first error.
def outcomes (reader : Reader) (entries : List (Bytes × Bytes)) :
    List (Except StoreError Record) :=
  untilError (entries.map fun entry => reader.decode entry.1 entry.2)

variable {reader : Reader} {key value : Bytes}

theorem stepsOver_of_strict (h : reader.policy = .strict) (entry : Bytes × Bytes) :
    reader.stepsOver entry = false := by
  unfold stepsOver skips
  cases reader.decode entry.1 entry.2 with
  | ok record => rfl
  | error error => simp [h]

theorem stepsOver_of_skip (h : reader.policy = .skip) :
    reader.stepsOver = reader.isUndecodable := by
  funext entry
  unfold stepsOver isUndecodable skips
  cases reader.decode entry.1 entry.2 with
  | ok record => rfl
  | error error => simp [h]

theorem answers_of_strict (h : reader.policy = .strict) (entries : List (Bytes × Bytes)) :
    reader.answers entries = reader.outcomes entries :=
  answers_of_all fun entry _ => stepsOver_of_strict h entry

theorem answers_of_skip (h : reader.policy = .skip) (entries : List (Bytes × Bytes)) :
    reader.answers entries = reader.outcomes (reader.decodable entries) := by
  rw [answers_eq_untilError, stepsOver_of_skip h]
  rfl

theorem decode_eq_ok {record : Record} :
    reader.decode key value = .ok record ↔ ∃ received,
      RecordKey.decode key = .ok (RecordKey.of received) ∧
      Codec.decodeAny reader.registry reader.unknownFields value = .ok received ∧
      reader.registry.upgrade received = .ok record := by
  constructor
  · intro h
    obtain ⟨stored, hkey, h⟩ := bind_eq_ok.mp h
    obtain ⟨received, hreceived, h⟩ := bind_eq_ok.mp h
    by_cases hplace : RecordKey.of received = stored
    · subst hplace
      simp only [ne_eq, not_true_eq_false, if_false] at h
      exact ⟨received, mapError_eq_ok.mp hkey, mapError_eq_ok.mp hreceived, mapError_eq_ok.mp h⟩
    · simp [hplace] at h
  · rintro ⟨received, hkey, hreceived, hupgrade⟩
    simp [decode, hkey, hreceived, hupgrade]

-- A record is answered from the one place where it may be stored, and at the latest
-- version of its kind.
theorem sound_of_decode (hregistry : reader.registry.WellFormed) {record : Record}
    (h : reader.decode key value = .ok record) :
    RecordKey.IsEntity record.entity ∧ key = (RecordKey.of record).keyBytes ∧
      ∃ latest, reader.registry.latest? record.kind = some latest ∧
        record.version = latest.version := by
  obtain ⟨received, hkey, hreceived, hupgrade⟩ := decode_eq_ok.mp h
  obtain ⟨hentity, hbytes⟩ := RecordKey.decode_eq_ok.mp hkey
  obtain ⟨schema, hschema⟩ := Codec.exists_schema_of_decodeAny hreceived
  obtain ⟨latest, payload, hlatest, rfl⟩ := hregistry.upgrade_eq_ok hschema hupgrade
  exact ⟨hentity, hbytes, latest, hlatest, rfl⟩

-- Where neither the key nor the bytes are at fault the record cannot be upgraded.
theorem upgrade_of_decode_eq_error {error : StoreError} (h : reader.decode key value = .error error)
    (hskippable : error.isSkippable = false) :
    ∃ received schema reason,
      reader.registry.schema? received.kind received.version = some schema ∧
      reader.registry.upgrade received = .error reason ∧ error = .record reason := by
  cases hkey : RecordKey.decode key with
  | error reason =>
      rw [decode, hkey] at h
      cases h
      contradiction
  | ok stored =>
      cases hreceived : Codec.decodeAny reader.registry reader.unknownFields value with
      | error reason =>
          have hfailure := Codec.isDecodeFailure_of_decodeAny hreceived
          rw [decode, hkey, hreceived] at h
          cases h
          rw [StoreError.isSkippable, hfailure] at hskippable
          contradiction
      | ok received =>
          obtain ⟨schema, hschema⟩ := Codec.exists_schema_of_decodeAny hreceived
          by_cases hplace : RecordKey.of received = stored
          · simp only [decode, hkey, hreceived, hplace, mapError_ok, ok_bind, ne_eq,
              not_true_eq_false, if_false] at h
            obtain ⟨reason, hreason, rfl⟩ := mapError_eq_error.mp h
            exact ⟨received, schema, reason, hschema, hreason, rfl⟩
          · simp [decode, hkey, hreceived, hplace] at h
            cases h
            contradiction

theorem missingUpgrade_of_decode (hregistry : reader.registry.WellFormed) {error : StoreError}
    (h : reader.decode key value = .error error) (hskippable : error.isSkippable = false) :
    ∃ kind version, error = .record (.missingUpgrade kind version) := by
  obtain ⟨received, schema, reason, hschema, hupgrade, rfl⟩ :=
    upgrade_of_decode_eq_error h hskippable
  obtain ⟨version, rfl⟩ := hregistry.upgrade_eq_error hschema hupgrade
  exact ⟨received.kind, version, rfl⟩

section Passing

variable {entries : List (Bytes × Bytes)}

-- Whether a read goes on behind an entry, with an answer or without.
def Passes (reader : Reader) (entry : Bytes × Bytes) : Prop :=
  reader.stepsOver entry = true ∨ ∃ record, reader.decode entry.1 entry.2 = .ok record

-- Where no upgrade is missing nothing ends a read that skips.
theorem passes_of_isComplete (hregistry : reader.registry.WellFormed)
    (hcomplete : reader.registry.IsComplete) (hpolicy : reader.policy = .skip)
    (entry : Bytes × Bytes) : reader.Passes entry := by
  cases hdecode : reader.decode entry.1 entry.2 with
  | ok record => exact .inr ⟨record, hdecode⟩
  | error error =>
      refine .inl ?_
      rw [stepsOver_of_skip hpolicy, isUndecodable, hdecode]
      by_contra hkept
      obtain ⟨received, schema, reason, hschema, hreason, _⟩ :=
        upgrade_of_decode_eq_error hdecode (Bool.not_eq_true _ ▸ hkept)
      obtain ⟨upgraded, hupgraded⟩ := hregistry.exists_upgrade hcomplete hschema
      cases hreason.symm.trans hupgraded

theorem answers_of_passes (h : ∀ entry ∈ entries, reader.Passes entry) :
    reader.answers entries =
      (entries.filter fun entry => !reader.stepsOver entry).map fun entry =>
        reader.decode entry.1 entry.2 := by
  rw [answers_eq_untilError]
  refine untilError_of_ok fun outcome houtcome => ?_
  obtain ⟨entry, hentry, rfl⟩ := List.mem_map.mp houtcome
  obtain ⟨hmem, hkept⟩ := List.mem_filter.mp hentry
  refine (h entry hmem).resolve_left fun hover => ?_
  rw [hover] at hkept
  contradiction

-- Every entry is answered or stepped over.
theorem length_answers_add (h : ∀ entry ∈ entries, reader.Passes entry) :
    (reader.answers entries).length + entries.countP reader.stepsOver = entries.length := by
  have hsplit := List.length_eq_countP_add_countP reader.stepsOver (l := entries)
  rw [answers_of_passes h, List.length_map, ← List.countP_eq_length_filter]
  simpa [Nat.add_comm] using hsplit.symm

-- Asked for more than all answers, a read looks at all entries.
theorem lookedAt_of_lt {calls : Nat} (h : ∀ entry ∈ entries, reader.Passes entry)
    (hcalls : (reader.answers entries).length < calls) :
    reader.lookedAt calls entries = entries := by
  induction entries generalizing calls with
  | nil => cases calls <;> rfl
  | cons entry rest ih =>
      obtain ⟨key, value⟩ := entry
      obtain ⟨fewer, rfl⟩ : ∃ fewer, calls = fewer + 1 := ⟨calls - 1, by omega⟩
      obtain ⟨hpasses, hrest⟩ := List.forall_mem_cons.mp h
      rw [lookedAt]
      cases hdecode : reader.decode key value with
      | ok record =>
          have hfewer : (reader.answers rest).length < fewer := by
            simpa [answers, hdecode] using hcalls
          simp only [ih hrest hfewer]
      | error error =>
          have hskips : reader.skips error = true := by
            simpa [Passes, stepsOver, hdecode] using hpasses
          have hfewer : (reader.answers rest).length < fewer + 1 := by
            simpa [answers, hdecode, hskips] using hcalls
          simp only [hskips, if_true, ih hrest hfewer]

end Passing

end Reader

namespace Records

-- What is answered to entries, call after call, by the policy of the reader.
structure Obeys (records : Records) (entries : List (Bytes × Bytes)) : Prop where
  -- Every entry is answered up to the first error.
  strict : records.reader.policy = .strict → ∀ calls,
    (records.after calls).next.1 = (records.reader.outcomes entries)[calls]? ∧
    (records.after calls).skipped = 0
  -- Every entry that can be decoded is answered up to the first error, and that is a
  -- missing upgrade. The others are counted when they are passed.
  skip : records.reader.policy = .skip → ∀ calls,
    (records.after calls).next.1 =
      (records.reader.outcomes (records.reader.decodable entries))[calls]? ∧
    (∀ error, (records.after calls).next.1 = some (.error error) →
      ∃ kind version, error = .record (.missingUpgrade kind version)) ∧
    (records.after calls).skipped =
      (records.reader.lookedAt calls entries).countP records.reader.isUndecodable
  -- What is passed for so many answers are the first entries, up to the last of them.
  passed : records.reader.policy = .skip → ∀ calls,
    records.reader.lookedAt calls entries <+: entries ∧
    records.reader.outcomes (records.reader.decodable (records.reader.lookedAt calls entries)) =
      (records.reader.outcomes (records.reader.decodable entries)).take calls

-- The records that are answered are of one entity and of instants within a span, in the
-- order of time and each at the latest version of its kind.
structure Tells (records : Records) (entity : String) (span : TimeSpan) : Prop where
  sound : ∀ calls record, (records.after calls).next.1 = some (.ok record) →
    record.entity = entity ∧ span.contains record.timestamp.micros = true ∧
      ∃ latest, records.reader.registry.latest? record.kind = some latest ∧
        record.version = latest.version
  ascending : ∀ earlier later first second, earlier < later →
    (records.after earlier).next.1 = some (.ok first) →
    (records.after later).next.1 = some (.ok second) →
    first.timestamp.micros < second.timestamp.micros

variable {table : Table} {pageSize : Nat} {range : KeyRange} {reader : Reader}

section Start

variable (hroom : (Snapshot.ofTable table pageSize).HasRoom)

include hroom

theorem next_after_start (calls : Nat) :
    ((start (Scan.start (Snapshot.ofTable table pageSize) range) reader).after calls).next.1 =
      (reader.answers (table.liveIn range))[calls]? := by
  rw [next_after (Scan.sound_start range hroom), answers, ahead_start]
  rfl

theorem skipped_after_start (calls : Nat) :
    ((start (Scan.start (Snapshot.ofTable table pageSize) range) reader).after calls).skipped =
      (reader.lookedAt calls (table.liveIn range)).countP reader.stepsOver := by
  rw [skipped_after (Scan.sound_start range hroom), ahead_start]
  exact Nat.zero_add _

theorem obeys_start (hregistry : reader.registry.WellFormed) :
    (start (Scan.start (Snapshot.ofTable table pageSize) range) reader).Obeys
      (table.liveIn range) := by
  refine ⟨fun (hpolicy : reader.policy = .strict) calls => ⟨?_, ?_⟩,
    fun (hpolicy : reader.policy = .skip) calls => ⟨?_, ?_, ?_⟩,
    fun (hpolicy : reader.policy = .skip) calls => ⟨reader.prefix_lookedAt calls _, ?_⟩⟩
  · rw [next_after_start hroom]
    exact congrArg (·[calls]?) (Reader.answers_of_strict hpolicy _)
  · rw [skipped_after_start hroom, List.countP_eq_zero]
    intro entry _
    rw [Reader.stepsOver_of_strict hpolicy entry]
    exact Bool.false_ne_true
  · rw [next_after_start hroom]
    exact congrArg (·[calls]?) (Reader.answers_of_skip hpolicy _)
  · intro error herror
    rw [next_after_start hroom] at herror
    obtain ⟨entry, _, hkept, hdecode⟩ :=
      Reader.exists_of_mem_answers (List.mem_of_getElem? herror)
    rw [Reader.stepsOver_of_skip hpolicy, Reader.isUndecodable, hdecode] at hkept
    exact Reader.missingUpgrade_of_decode hregistry hdecode hkept
  · rw [skipped_after_start hroom, Reader.stepsOver_of_skip hpolicy]
    rfl
  · have hlooked := reader.answers_lookedAt calls (table.liveIn range)
    rw [Reader.answers_of_skip hpolicy, Reader.answers_of_skip hpolicy] at hlooked
    exact hlooked

-- The order and the bounds are those of the keys, since a record is answered only where
-- it may be stored.
theorem tells_start (hregistry : reader.registry.WellFormed) {entity : String} {span : TimeSpan}
    (hkeys : span.keys entity = .ok range) :
    (start (Scan.start (Snapshot.ofTable table pageSize) range) reader).Tells entity span := by
  have hplace : ∀ entry ∈ table.liveIn range, ∀ record,
      reader.decode entry.1 entry.2 = .ok record → entry.1 = (RecordKey.of record).keyBytes ∧
        record.entity = entity ∧ span.contains record.timestamp.micros = true := by
    intro entry hmem record hdecode
    obtain ⟨hentity, hkey, _⟩ := Reader.sound_of_decode hregistry hdecode
    have hcontains := (Table.mem_liveIn.mp hmem).2
    rw [hkey] at hcontains
    exact ⟨hkey, (TimeSpan.contains_keys_iff hkeys hentity).mp hcontains⟩
  refine ⟨?_, ?_⟩
  · intro calls record hanswer
    rw [next_after_start hroom] at hanswer
    obtain ⟨entry, hmem, _, hdecode⟩ :=
      Reader.exists_of_mem_answers (List.mem_of_getElem? hanswer)
    obtain ⟨_, hentity, hspan⟩ := hplace entry hmem record hdecode
    exact ⟨hentity, hspan, (Reader.sound_of_decode hregistry hdecode).2.2⟩
  · intro earlier later first second hlt hfirst hsecond
    have hpairwise : (reader.answers (table.liveIn range)).Pairwise fun outcome outcome' =>
        ∀ record record', outcome = .ok record → outcome' = .ok record' →
          record.timestamp.micros < record'.timestamp.micros := by
      refine Reader.pairwise_answers ((Table.ascending_liveIn table range).imp_of_mem ?_)
      intro entry entry' hmem hmem' hbefore record record' hdecode hdecode'
      obtain ⟨hkey, hentity, _⟩ := hplace entry hmem record hdecode
      obtain ⟨hkey', hentity', _⟩ := hplace entry' hmem' record' hdecode'
      have hsame : (RecordKey.of record).entity = (RecordKey.of record').entity :=
        hentity.trans hentity'.symm
      rw [hkey, hkey', RecordKey.keyBytes, RecordKey.keyBytes, hsame] at hbefore
      exact TimeSpan.append_lt_append_iff.mp hbefore
    rw [next_after_start hroom] at hfirst hsecond
    obtain ⟨hearlier, hfirst⟩ := List.getElem?_eq_some_iff.mp hfirst
    obtain ⟨hlater, hsecond⟩ := List.getElem?_eq_some_iff.mp hsecond
    exact List.pairwise_iff_getElem.mp hpairwise earlier later hearlier hlater hlt first second
      hfirst hsecond

end Start

end Records

namespace EventStore

-- Whatever is in the table, a read answers what its policy makes of the live entries in
-- the range of the span.
theorem obeys_read {store : EventStore} (hregistry : store.registry.Built) (hroom : store.HasRoom)
    {entity : String} (hentity : RecordKey.IsEntity entity) (span : TimeSpan) :
    ∃ range records, span.keys entity = .ok range ∧ store.read entity span = .ok records ∧
      records.reader = store.reader ∧ records.Obeys (store.storage.table.liveIn range) ∧
      records.Tells entity span := by
  have hkeys := TimeSpan.keys_of_isEntity span hentity
  exact ⟨_, Records.start (Scan.start store.storage.snapshot _) store.reader, hkeys,
    StoreView.read_eq_ok.mpr ⟨_, hkeys, rfl⟩, rfl,
    Records.obeys_start hroom hregistry.wellFormed,
    Records.tells_start hroom hregistry.wellFormed hkeys⟩

-- One of the two entries of a store is damaged, and the read steps over it.
theorem obeys_read_of_damaged :
    ∃ registry opened, Registry.register ∅ ⟨"note", 1, []⟩ = .ok registry ∧
      openIn Directory.fresh ⟨"notes", .skip, .preserve, .default⟩ registry = .ok opened ∧
      let written := opened.after (.write ⟨"note", "e", ⟨5, none⟩, 1, ∅⟩)
      let damaged : EventStore :=
        { written with storage := written.storage.put (RecordKey.mk "e" 3).keyBytes [7] }
      (damaged.storage.table.liveEntries.map damaged.reader.isUndecodable) = [true, false] ∧
      ∃ range records, TimeSpan.always.keys "e" = .ok range ∧
        damaged.read "e" TimeSpan.always = .ok records ∧ records.reader = damaged.reader ∧
        records.Obeys (damaged.storage.table.liveIn range) ∧
        records.Tells "e" TimeSpan.always := by
  refine ⟨_, _, rfl, rfl, by decide +kernel, ?_⟩
  refine obeys_read ?_ (.inl ?_) (by decide) TimeSpan.always
  · rw [EventStore.registry, (after_keeps _ _).1]
    exact .register .empty (rfl : Registry.register ∅ ⟨"note", 1, []⟩ = .ok _)
  · decide +kernel

end EventStore

end Chronicle
