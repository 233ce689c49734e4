import Chronicle.Storage

-- What an opening comes to: a store that holds the directory, or a refusal that leaves
-- the directory as it was.

namespace Chronicle

namespace Storage

variable {directory : Directory} {path : String} {options : StorageOptions}

theorem openIn_eq (directory : Directory) (path : String) (options : StorageOptions) :
    openIn directory path options =
      if directory.held then .error (.locked path)
      else if directory.format ≠ Directory.currentFormat then
        .error (.incompatibleFormat directory.format)
      else .ok ⟨path, { directory with held := true }, options⟩ := by
  unfold openIn attempt Directory.take?
  by_cases hheld : directory.held = true
  · simp [hheld]
  · by_cases hformat : directory.format = Directory.currentFormat
    · simp [hheld, hformat]
    · simp [hheld, hformat]

theorem openIn_eq_ok {store : Storage} :
    openIn directory path options = .ok store ↔ directory.held = false ∧
      directory.format = Directory.currentFormat ∧
      store = ⟨path, { directory with held := true }, options⟩ := by
  rw [openIn_eq]
  by_cases hheld : directory.held = true
  · simp [hheld]
  · by_cases hformat : directory.format = Directory.currentFormat
    · simp [hheld, hformat, eq_comm]
    · simp [hheld, hformat]

-- What a refused opening took is given back, so only a store that is opened leaves a trace
-- in the directory.
theorem attempt_eq (directory : Directory) (path : String) (options : StorageOptions) :
    attempt directory path options =
      match openIn directory path options with
      | .ok store => (.ok store, store.directory)
      | .error error => (.error error, directory) := by
  obtain ⟨format, table, held⟩ := directory
  cases held with
  | true => rfl
  | false =>
      by_cases hformat : format = Directory.currentFormat
      · simp [attempt, openIn, Directory.take?, hformat]
      · simp [attempt, openIn, Directory.take?, Directory.release, hformat]

end Storage

end Chronicle
