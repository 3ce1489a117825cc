import StaticImage.Storage.Reading

namespace StaticImage.Storage.Tree

variable {t : Tree} {names other : List String} {content : List UInt8}

theorem lookup_filter_ne {files : List (List String × List UInt8)} (apart : other ≠ names) :
    (files.filter fun (name, _) => name ≠ names).lookup other = files.lookup other := by
  induction files with
  | nil => rfl
  | cons entry files ih =>
      obtain ⟨name, bytes⟩ := entry
      rw [List.filter_cons, List.lookup_cons]
      by_cases dropped : name = names
      · have passed : (other == name) = false := by
          rw [beq_eq_false_iff_ne, dropped]
          exact apart
        rw [if_neg (by simp [dropped]), passed, ih]
      · rw [if_pos (by simp [dropped]), List.lookup_cons, ih]

theorem file?_write : (t.write names content).file? other =
    if other = names then some content else t.file? other := by
  rw [file?, write, List.lookup_cons]
  by_cases same : other = names
  · rw [if_pos same, beq_iff_eq.mpr same]
  · rw [if_neg same, beq_eq_false_iff_ne.mpr same]
    exact lookup_filter_ne same

theorem isFile_write (file : t.isFile other) : (t.write names content).isFile other := by
  rw [isFile, file?_write]
  split
  · rfl
  · exact file

theorem isDirectory_write (directory : t.isDirectory other) :
    (t.write names content).isDirectory other := by
  rw [isDirectory, Bool.or_eq_true] at directory ⊢
  refine directory.imp id fun below => ?_
  obtain ⟨⟨name, bytes⟩, member, here⟩ := List.any_eq_true.mp below
  rw [List.any_eq_true]
  by_cases replaced : name = names
  · exact ⟨(names, content), List.mem_cons_self, replaced ▸ here⟩
  · refine ⟨(name, bytes), List.mem_cons_of_mem _ ?_, here⟩
    exact List.mem_filter.mpr ⟨member, by simp [replaced]⟩

theorem step_write {place next : Place} {part : String} (run : t.step place part = .ok next) :
    (t.write names content).step place part = .ok next := by
  cases place with
  | around => exact run
  | within directory =>
      rw [step] at run ⊢
      by_cases starts : t.isDirectory directory
      · have still := @isDirectory_write t names directory content starts
        rw [if_neg (by simp [starts])] at run
        rw [if_neg (by simp [still])]
        by_cases up : part = ".."
        · rwa [if_pos up] at run ⊢
        · rw [if_neg up] at run ⊢
          by_cases named : isName part
          · rw [if_neg (by simp [named])] at run ⊢
            by_cases found : t.isFile (directory ++ [part]) || t.isDirectory (directory ++ [part])
            · have later := (Bool.or_eq_true _ _).mp found
              rw [if_pos found] at run
              rw [if_pos ((Bool.or_eq_true _ _).mpr (later.imp isFile_write isDirectory_write))]
              exact run
            · rw [if_neg found] at run
              cases run
          · rwa [if_pos (by simp [named])] at run ⊢
      · rw [if_pos (by simp [starts])] at run
        cases run

theorem foldlM_write (parts : List String) {place next : Place}
    (run : parts.foldlM t.step place = .ok next) :
    parts.foldlM (t.write names content).step place = .ok next := by
  induction parts generalizing place with
  | nil => exact run
  | cons part parts ih =>
      rw [List.foldlM_cons] at run ⊢
      cases first : t.step place part with
      | error cause =>
          rw [first] at run
          cases run
      | ok mid =>
          rw [first] at run
          rw [step_write first]
          exact ih run

theorem destination_ok {path : String} (run : t.destination path = .ok names) :
    ∃ front name directory, (Path.ofString path).parts = front ++ [name] ∧
      front.foldlM t.step (Path.ofString path).start = .ok (.within directory) ∧
      t.isDirectory directory ∧ isName name ∧ names = directory ++ [name] := by
  unfold destination at run
  dsimp only at run
  split at run
  · cases run
  · cases run
  · rename_i name _ last
    obtain ⟨front, parts⟩ := List.getLast?_eq_some_iff.mp last
    rw [parts, List.dropLast_concat] at run
    cases leads : t.follow { Path.ofString path with parts := front } with
    | error cause =>
        rw [leads] at run
        cases run
    | ok place =>
        rw [leads] at run
        cases place with
        | around => cases run
        | within directory =>
            dsimp only [Bind.bind, Except.bind] at run
            split at run
            · cases run
            · rename_i there
              split at run
              · cases run
              · rename_i free
                split at run
                · cases run
                · cases run
                  rw [Bool.or_eq_true, not_or] at free
                  exact ⟨front, name, directory, parts, leads, by simpa using there,
                    by simpa using free.1, rfl⟩

theorem follow_write {path : String} (run : t.destination path = .ok names) :
    (t.write names content).follow (.ofString path) = .ok (.within names) := by
  obtain ⟨front, name, directory, parts, leads, there, named, rfl⟩ := destination_ok run
  have still := @isDirectory_write t (directory ++ [name]) directory content there
  have created : (t.write (directory ++ [name]) content).isFile (directory ++ [name]) := by
    rw [isFile, file?_write, if_pos rfl]
    rfl
  rw [follow, parts, List.foldlM_append, foldlM_write front leads]
  have last : (t.write (directory ++ [name]) content).step (.within directory) name =
      .ok (.within (directory ++ [name])) := by
    have down : name ≠ ".." := by
      rintro rfl
      simp [isName] at named
    rw [step]
    simp [still, down, named, created]
  change ([name].foldlM (t.write (directory ++ [name]) content).step (Place.within directory)) = _
  rw [List.foldlM_cons, last]
  rfl

structure Gains (t t' : Tree) (path : String) (names : List String) (content : List UInt8) :
    Prop where
  leads : t'.follow (.ofString path) = .ok (.within names)
  holds : t'.read (.within names) = .ok content
  others : ∀ other, other ≠ names → t'.file? other = t.file? other

theorem gains_write {path : String} (run : t.destination path = .ok names) :
    t.Gains (t.write names content) path names content where
  leads := follow_write run
  holds := by
    rw [read, file?_write, if_pos rfl]
  others other apart := by
    rw [file?_write, if_neg apart]

theorem ne_empty_of_destination {path : String} (run : t.destination path = .ok names) :
    path ≠ "" := by
  rintro rfl
  obtain ⟨front, name, _, parts, _, _, named, _⟩ := destination_ok run
  have single : (Path.ofString "").parts = [""] := by decide +kernel
  rw [single] at parts
  obtain ⟨-, same⟩ := List.append_inj' (show [] ++ [""] = front ++ [name] from parts) rfl
  cases same
  cases named

end StaticImage.Storage.Tree
