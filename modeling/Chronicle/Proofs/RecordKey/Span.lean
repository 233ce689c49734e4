import Chronicle.Proofs.RecordKey

-- The keys of an entity within a span of time that is given by timestamps: only
-- the instants of the timestamps count, and only instants of the span are selected.

namespace Chronicle.TimeSpan

-- An end of a span as it is asked for.
inductive Edge where
  | unbounded
  | included (timestamp : Timestamp)
  | excluded (timestamp : Timestamp)

namespace Edge

def bound : Edge → TimeBound
  | .unbounded => .unbounded
  | .included timestamp => .included timestamp.micros
  | .excluded timestamp => .excluded timestamp.micros

-- An instant is not too early for a span that begins here.
def Begins (lower : Edge) (micros : Int64) : Prop :=
  match lower with
  | .unbounded => True
  | .included first => first.micros.toInt ≤ micros.toInt
  | .excluded before => before.micros.toInt < micros.toInt

-- An instant is not too late for a span that ends here.
def Ends (upper : Edge) (micros : Int64) : Prop :=
  match upper with
  | .unbounded => True
  | .included last => micros.toInt ≤ last.micros.toInt
  | .excluded after => micros.toInt < after.micros.toInt

theorem isBelow_bound_iff {lower : Edge} {micros : Int64} :
    lower.bound.isBelow micros = true ↔ lower.Begins micros := by
  cases lower with
  | unbounded => simp [bound, TimeBound.isBelow, Begins]
  | included first => simp [bound, TimeBound.isBelow, Begins, Int64.le_iff_toInt_le]
  | excluded before => simp [bound, TimeBound.isBelow, Begins, Int64.lt_iff_toInt_lt]

theorem isAbove_bound_iff {upper : Edge} {micros : Int64} :
    upper.bound.isAbove micros = true ↔ upper.Ends micros := by
  cases upper with
  | unbounded => simp [bound, TimeBound.isAbove, Ends]
  | included last => simp [bound, TimeBound.isAbove, Ends, Int64.le_iff_toInt_le]
  | excluded after => simp [bound, TimeBound.isAbove, Ends, Int64.lt_iff_toInt_lt]

end Edge

def between (lower upper : Edge) : TimeSpan := ⟨lower.bound, upper.bound⟩

theorem contains_between_iff {lower upper : Edge} {micros : Int64} :
    (between lower upper).contains micros = true ↔ lower.Begins micros ∧ upper.Ends micros := by
  rw [contains, Bool.and_eq_true, between, Edge.isBelow_bound_iff, Edge.isAbove_bound_iff]

-- A range of keys that has just those of an entity whose instants are asked for.
structure Selects (range : KeyRange) (entity : String) (lower upper : Edge) : Prop where
  contains_iff : ∀ key : RecordKey, RecordKey.IsEntity key.entity →
    ∃ bytes, key.encode = .ok bytes ∧ (range.contains bytes = true ↔
      key.entity = entity ∧ lower.Begins key.micros ∧ upper.Ends key.micros)
  -- Bytes that are no key of a record are there only if they begin like one.
  begins : ∃ front, RecordKey.front entity = .ok front ∧
    ∀ bytes, range.contains bytes = true → front <+: bytes

-- Every span of every entity is a range of keys, also one that ends before it
-- begins or that goes on to the last instant there is.
theorem selects_keys {entity : String} (hentity : RecordKey.IsEntity entity) (lower upper : Edge) :
    ∃ range, (between lower upper).keys entity = .ok range ∧
      Selects range entity lower upper := by
  have hkeys := keys_of_isEntity (between lower upper) hentity
  refine ⟨_, hkeys, ?_, ?_⟩
  · intro key hkey
    refine ⟨key.keyBytes, RecordKey.encode_of_isEntity hkey, ?_⟩
    rw [contains_keys_iff hkeys hkey, contains_between_iff]
  · exact ⟨_, RecordKey.front_of_isEntity hentity, fun bytes hbytes =>
      prefix_of_mem_keyRange hbytes⟩

-- From just after the first instant, seen from the east, up to the last one.
theorem selects_keys_of_odeon :
    let lower := Edge.excluded ⟨Int64.minValue, Offset.ofSeconds? 3600⟩
    let upper := Edge.included Timestamp.max
    RecordKey.IsEntity "odeon" ∧ ∃ range, (between lower upper).keys "odeon" = .ok range ∧
      Selects range "odeon" lower upper := by
  have hentity : RecordKey.IsEntity "odeon" := by decide
  exact ⟨hentity, selects_keys hentity _ _⟩

end Chronicle.TimeSpan
