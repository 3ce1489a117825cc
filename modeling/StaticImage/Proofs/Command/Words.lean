import StaticImage.Command.Arguments

namespace StaticImage.Command

def Arguments.into (a : Arguments) (path : String) : Arguments :=
  { a with output := some path }

theorem bind_into {α β : Type} {p : Prop} {first again : Option α} {next next' : α → Option β}
    {read result : β} (run : first.bind next = some read)
    (step : ∀ x, first = some x → next x = some read →
      p ∧ ∃ y, again = some y ∧ next' y = some result) : p ∧ again.bind next' = some result := by
  obtain ⟨x, found, later⟩ := Option.bind_eq_some_iff.mp run
  obtain ⟨holds, y, found', later'⟩ := step x found later
  exact ⟨holds, Option.bind_eq_some_iff.mpr ⟨y, found', later'⟩⟩

section

variable {a b : Arguments} {path : String} {waiting : Option Setting}

theorem set?_into {s : Setting} {value : String} (run : a.set? s value = some b)
    (unnamed : b.output = none) :
    a.output = none ∧ (a.into path).set? s value = some (b.into path) := by
  cases s <;> grind [Arguments.set?, Arguments.into]

theorem joined_into {s : Setting} {value : String}
    (run : (a.set? s value).map (fun a => (a, (none : Option Setting))) = some (b, waiting))
    (unnamed : b.output = none) :
    a.output = none ∧
      ((a.into path).set? s value).map (fun a => (a, (none : Option Setting))) =
        some (b.into path, waiting) := by
  obtain ⟨mid, set, same⟩ := Option.map_eq_some_iff.mp run
  cases same
  obtain ⟨fresh, again⟩ := set?_into set unnamed
  exact ⟨fresh, congrArg _ again⟩

theorem switch?_into {s : Switch} (run : a.switch? s = some b) (unnamed : b.output = none) :
    a.output = none ∧ (a.into path).switch? s = some (b.into path) := by
  cases s <;> grind [Arguments.switch?, Arguments.into]

theorem file?_into {file : String} (run : a.file? file = some b) (unnamed : b.output = none) :
    a.output = none ∧ (a.into path).file? file = some (b.into path) := by
  grind [Arguments.file?, Arguments.into]

theorem group?_into {names : List Char} (run : group? a names = some (b, waiting))
    (unnamed : b.output = none) :
    a.output = none ∧ group? (a.into path) names = some (b.into path, waiting) := by
  induction names generalizing a with
  | nil =>
      cases run
      exact ⟨unnamed, rfl⟩
  | cons c rest ih =>
      rw [group?] at run ⊢
      split at run
      · cases run
      · refine bind_into run fun mid first later => ?_
        obtain ⟨early, same⟩ := ih later
        obtain ⟨fresh, again⟩ := switch?_into first early
        exact ⟨fresh, _, again, same⟩
      · split at run
        · cases run
          exact ⟨unnamed, rfl⟩
        · exact joined_into run unnamed
        · exact joined_into run unnamed

theorem long_into {word : List Char} (run : long a word = some (b, waiting))
    (unnamed : b.output = none) :
    a.output = none ∧ long (a.into path) word = some (b.into path, waiting) := by
  unfold long at run ⊢
  dsimp only at run ⊢
  split at run
  · cases run
  · obtain ⟨mid, first, same⟩ := Option.map_eq_some_iff.mp run
    cases same
    obtain ⟨fresh, switched⟩ := switch?_into first unnamed
    exact ⟨fresh, congrArg _ switched⟩
  · cases run
  · cases run
    exact ⟨unnamed, rfl⟩
  · exact joined_into run unnamed

theorem files_into {words : List String} (run : words.foldlM Arguments.file? a = some b)
    (unnamed : b.output = none) :
    a.output = none ∧ words.foldlM Arguments.file? (a.into path) = some (b.into path) := by
  induction words generalizing a with
  | nil =>
      cases run
      exact ⟨unnamed, rfl⟩
  | cons word words ih =>
      rw [List.foldlM_cons] at run ⊢
      refine bind_into run fun mid first later => ?_
      obtain ⟨early, same⟩ := ih later
      obtain ⟨fresh, again⟩ := file?_into first early
      exact ⟨fresh, _, again, same⟩

/-- The words may be read as well when an output file was named before. A file that is named stays to
the end, so there is none on the way if there is none in the end. -/
theorem readFrom_into {words : List String} (run : readFrom a waiting words = some b)
    (unnamed : b.output = none) :
    a.output = none ∧ readFrom (a.into path) waiting words = some (b.into path) := by
  induction words generalizing a waiting with
  | nil =>
      rw [readFrom] at run ⊢
      split at run
      · cases run
      · rename_i ended
        cases run
        exact ⟨unnamed, if_neg ended⟩
  | cons word words ih =>
      rw [readFrom.eq_def] at run ⊢
      dsimp only at run ⊢
      cases waiting with
      | some s =>
          dsimp only at run ⊢
          split at run
          · cases run
          · rename_i value
            rw [if_neg value]
            refine bind_into run fun mid set later => ?_
            obtain ⟨early, same⟩ := ih later
            obtain ⟨fresh, again⟩ := set?_into set early
            exact ⟨fresh, _, again, same⟩
      | none =>
          dsimp only at run ⊢
          split at run
          · rename_i ends
            rw [if_pos ends]
            exact files_into run unnamed
          · rename_i more
            rw [if_neg more]
            split at run
            · rename_i file
              rw [if_pos file]
              refine bind_into run fun mid filed later => ?_
              obtain ⟨early, same⟩ := ih later
              obtain ⟨fresh, again⟩ := file?_into filed early
              exact ⟨fresh, _, again, same⟩
            · rename_i option
              rw [if_neg option]
              split at run
              · refine bind_into run fun mid named later => ?_
                obtain ⟨early, same⟩ := ih later
                obtain ⟨fresh, again⟩ := long_into named early
                exact ⟨fresh, _, again, same⟩
              · refine bind_into run fun mid named later => ?_
                obtain ⟨early, same⟩ := ih later
                obtain ⟨fresh, again⟩ := group?_into named early
                exact ⟨fresh, _, again, same⟩
              · cases run

theorem long_output (named : path ≠ "") :
    long .empty ("output=".toList ++ path.toList) = some (Arguments.empty.into path, none) := by
  have name : ("output=".toList ++ path.toList).takeWhile (· ≠ '=') = "output".toList := by
    have chars : "output=".toList = ['o', 'u', 't', 'p', 'u', 't', '='] := rfl
    rw [chars]
    rfl
  have given : path.isEmpty = false := by
    rw [← Bool.not_eq_true, String.isEmpty_iff]
    exact named
  unfold long
  dsimp only
  rw [name, String.ofList_toList]
  have rest : ("output=".toList ++ path.toList).drop "output".toList.length = '=' :: path.toList :=
    rfl
  rw [rest, long?]
  dsimp only
  rw [String.ofList_toList, Arguments.set?, given]
  rfl

/-- The output file may be named in front of all the other words. -/
theorem read?_behind_output {words : List String} (reads : read? words = some a)
    (unnamed : a.output = none) (named : path ≠ "") :
    read? (("--output=" ++ path) :: words) = some (a.into path) := by
  obtain ⟨last, run, file⟩ := Option.bind_eq_some_iff.mp reads
  have letters : ("--output=" ++ path).toList = '-' :: '-' :: ("output=".toList ++ path.toList) := by
    rw [String.toList_append]
    rfl
  have option : isOption ("--output=" ++ path) := by
    rw [isOption, Bool.and_eq_true, String.startsWith_string_iff, letters]
    refine ⟨⟨_, rfl⟩, decide_eq_true fun same => ?_⟩
    have lists := congrArg String.toList same
    rw [letters] at lists
    cases lists
  have more : "--output=" ++ path ≠ "--" := by
    intro same
    have lists := congrArg String.toList same
    rw [letters] at lists
    cases lists
  have first : readFrom .empty none (("--output=" ++ path) :: words) =
      readFrom (Arguments.empty.into path) none words := by
    rw [readFrom.eq_def]
    dsimp only
    rw [if_neg more, if_neg (by simp [option]), letters]
    change (long .empty ("output=".toList ++ path.toList) >>= fun p => readFrom p.1 p.2 words) = _
    rw [long_output named]
    rfl
  rw [read?, first]
  split at file
  · rename_i given
    cases file
    rw [(readFrom_into run unnamed).2]
    exact if_pos given
  · cases file

end

end StaticImage.Command
