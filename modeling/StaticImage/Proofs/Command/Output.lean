import StaticImage.Command.Run
import StaticImage.Proofs.Command.Words
import StaticImage.Proofs.Image.Buffering
import StaticImage.Proofs.Snapshot.Graph
import StaticImage.Proofs.Storage.Writing

namespace StaticImage.Command

def Starts (host : Host) (tree : Storage.Tree) (a : Arguments) (loaded : Snapshot.Loaded)
    (v : Value) : Prop :=
  ∃ text, (tree.locate "." (a.file.getD "")).bind tree.readText = .ok text ∧
    Snapshot.loadRoot host text a.root = .ok (loaded, v)

def Arguments.dump (a : Arguments) (loaded : Snapshot.Loaded) (v : Value) : DumpOutcome :=
  (loaded.heap.dump v ⟨a.weak, a.context⟩ none).1

section

variable {host : Host} {tree : Storage.Tree} {words : List String} {a : Arguments}
  {loaded : Snapshot.Loaded} {v : Value}

theorem Starts.unique {other : Snapshot.Loaded} {w : Value} (starts : Starts host tree a loaded v)
    (again : Starts host tree a other w) : other = loaded ∧ w = v := by
  obtain ⟨text, read, found⟩ := starts
  obtain ⟨text', read', found'⟩ := again
  cases read.symm.trans read'
  cases found.symm.trans found'
  exact ⟨rfl, rfl⟩

theorem run_of_text {text : String} (reads : read? words = some a)
    (read : (tree.locate "." (a.file.getD "")).bind tree.readText = .ok text) :
    run host tree words =
      match execute host a text with
      | .error _ => ⟨failed, [], tree⟩
      | .ok e => e.perform tree := by
  unfold run
  rewrite [reads]
  dsimp only
  rewrite [read]
  rfl

theorem execute_found {text : String} (dumps : a.listing = false)
    (found : Snapshot.loadRoot host text a.root = .ok (loaded, v)) :
    execute host a text =
      .ok ⟨a.output, (a.dump loaded v).bytes,
        (a.dump loaded v).error.toList.map DumpError.message⟩ := by
  unfold execute
  rewrite [found, dumps]
  rfl

theorem run_starts (reads : read? words = some a) (dumps : a.listing = false)
    (starts : Starts host tree a loaded v) :
    run host tree words =
      Execution.perform ⟨a.output, (a.dump loaded v).bytes,
        (a.dump loaded v).error.toList.map DumpError.message⟩ tree := by
  obtain ⟨text, read, found⟩ := starts
  rewrite [run_of_text reads read, execute_found dumps found]
  rfl

theorem run_fails (reads : read? words = some a)
    (stuck : ¬ ∃ loaded v, Starts host tree a loaded v) :
    run host tree words = ⟨failed, [], tree⟩ := by
  cases read : (tree.locate "." (a.file.getD "")).bind tree.readText with
  | error why =>
      unfold run
      rewrite [reads]
      dsimp only
      rewrite [read]
      rfl
  | ok text =>
      rewrite [run_of_text reads read]
      cases found : Snapshot.loadRoot host text a.root with
      | error why =>
          unfold execute
          rewrite [found]
          rfl
      | ok outcome => exact (stuck ⟨outcome.1, outcome.2, text, read, found⟩).elim

def exitOf (o : DumpOutcome) : Nat :=
  if o.error.isSome then failed else 0

theorem exitOf_eq_zero_iff (o : DumpOutcome) : exitOf o = 0 ↔ o.error = none := by
  rw [exitOf]
  cases o.error with
  | none => exact ⟨fun _ => rfl, fun _ => rfl⟩
  | some why => exact ⟨nofun, nofun⟩

theorem run_prints (reads : read? words = some a) (prints : a.output = none)
    (dumps : a.listing = false) (starts : Starts host tree a loaded v) :
    run host tree words = ⟨exitOf (a.dump loaded v), (a.dump loaded v).bytes, tree⟩ := by
  rw [run_starts reads dumps starts, prints, Execution.perform, exitOf]
  cases (a.dump loaded v).error <;> rfl

theorem run_saves {path : String} {names : List String} (reads : read? words = some (a.into path))
    (dumps : a.listing = false) (starts : Starts host tree a loaded v)
    (creates : tree.destination path = .ok names) :
    run host tree words =
      ⟨exitOf (a.dump loaded v), [], tree.write names (a.dump loaded v).bytes⟩ := by
  have starts_too : Starts host tree (a.into path) loaded v := starts
  rw [run_starts reads dumps starts_too, Execution.perform, exitOf]
  have same : (a.into path).dump loaded v = a.dump loaded v := rfl
  have output : (a.into path).output = some path := rfl
  rw [same, output]
  dsimp only
  rw [creates]
  cases (a.dump loaded v).error <;> rfl

end

/-- Without an output file the command prints what the dump writes, however it ends, and exits with
zero exactly if there is a dump without an error. With an output file that can be created it exits
alike and prints nothing; the file then has what would be printed, or no file is touched if there is
nothing to dump. -/
theorem output_file_gets_what_is_printed (host : Host) (tree : Storage.Tree) (words : List String)
    (a : Arguments) (reads : read? words = some a) (prints : a.output = none)
    (dumps : a.listing = false) :
    let printed := run host tree words
    printed.tree = tree ∧
      (∀ loaded v, Starts host tree a loaded v →
        printed.stdout = (a.dump loaded v).bytes ∧
          ∀ k : Buffering,
            k.output (loaded.heap.writes v ⟨a.weak, a.context⟩) = printed.stdout) ∧
      ((¬ ∃ loaded v, Starts host tree a loaded v) → printed.stdout = []) ∧
      (printed.exit = 0 ↔ ∃ loaded v, Starts host tree a loaded v ∧ (a.dump loaded v).error = none) ∧
      ∀ path names, tree.destination path = .ok names →
        read? (("--output=" ++ path) :: words) = some (a.into path) ∧
          ∀ others, read? others = some (a.into path) →
            let saved := run host tree others
            saved.exit = printed.exit ∧ saved.stdout = [] ∧
              ((∃ loaded v, Starts host tree a loaded v) →
                tree.Gains saved.tree path names printed.stdout) ∧
              ((¬ ∃ loaded v, Starts host tree a loaded v) → saved.tree = tree) := by
  intro printed
  by_cases started : ∃ loaded v, Starts host tree a loaded v
  · obtain ⟨loaded, v, starts⟩ := started
    have shown : printed = ⟨exitOf (a.dump loaded v), (a.dump loaded v).bytes, tree⟩ :=
      run_prints reads prints dumps starts
    refine ⟨by rw [shown], fun other w again => ?_, fun stuck => ?_, ?_, fun path names creates => ?_⟩
    · obtain ⟨rfl, rfl⟩ := starts.unique again
      exact ⟨by rw [shown], fun k => by rw [shown]; exact other.heap.output_writes w _ k⟩
    · exact (stuck ⟨loaded, v, starts⟩).elim
    · rw [shown, exitOf_eq_zero_iff]
      refine ⟨fun sound => ⟨loaded, v, starts, sound⟩, ?_⟩
      rintro ⟨other, w, again, sound⟩
      obtain ⟨rfl, rfl⟩ := starts.unique again
      exact sound
    · refine ⟨read?_behind_output reads prints (Storage.Tree.ne_empty_of_destination creates), ?_⟩
      intro others reads_too saved
      have kept : saved = ⟨exitOf (a.dump loaded v), [],
          tree.write names (a.dump loaded v).bytes⟩ := run_saves reads_too dumps starts creates
      rw [kept, shown]
      exact ⟨rfl, rfl, fun _ => Storage.Tree.gains_write creates,
        fun stuck => (stuck ⟨loaded, v, starts⟩).elim⟩
  · have shown : printed = ⟨failed, [], tree⟩ := run_fails reads started
    refine ⟨by rw [shown], fun other w again => ?_, fun _ => by rw [shown], ?_,
      fun path names creates => ?_⟩
    · exact (started ⟨other, w, again⟩).elim
    · rw [shown]
      exact ⟨nofun, fun ⟨other, w, again, _⟩ => (started ⟨other, w, again⟩).elim⟩
    · refine ⟨read?_behind_output reads prints (Storage.Tree.ne_empty_of_destination creates), ?_⟩
      intro others reads_too saved
      have stuck : ¬ ∃ loaded v, Starts host tree (a.into path) loaded v := started
      have kept : saved = ⟨failed, [], tree⟩ := run_fails reads_too stuck
      rw [kept, shown]
      exact ⟨rfl, rfl, fun start => (started start).elim, fun _ => rfl⟩

def brokenText : String :=
  "class A \x7b\x7d closure f \x7bconsts: [1, instance(A)]\x7d"

def brokenTree : Storage.Tree :=
  ⟨[(["f.snap"], brokenText.toUTF8.data.toList)]⟩

theorem broken_dump_is_saved_as_printed :
    let printed := run .wide brokenTree ["f.snap", "-w"]
    let saved := run .wide brokenTree ["-wo", "out.h", "f.snap"]
    printed.exit = failed ∧ printed.stdout ≠ [] ∧ saved.exit = failed ∧ saved.stdout = [] ∧
      brokenTree.Gains saved.tree "out.h" ["out.h"] printed.stdout := by
  intro printed saved
  let a : Arguments := ⟨some "f.snap", none, none, none, true, false⟩
  have checked : ((brokenTree.locate "." "f.snap").bind brokenTree.readText).toOption.any fun text =>
      (Snapshot.loadRoot .wide text none).toOption.any fun (loaded, v) =>
        (a.dump loaded v).error.isSome && !(a.dump loaded v).bytes.isEmpty := by
    decide +kernel
  obtain ⟨text, read, checked⟩ := Snapshot.exists_ok_of_any checked
  obtain ⟨⟨loaded, v⟩, found, checked⟩ := Snapshot.exists_ok_of_any checked
  obtain ⟨broken, written⟩ := Bool.and_eq_true_iff.mp checked
  have starts : Starts .wide brokenTree a loaded v := ⟨text, read, found⟩
  obtain ⟨_, prints, _, exits, saves⟩ := output_file_gets_what_is_printed .wide brokenTree
    ["f.snap", "-w"] a (by decide +kernel) rfl rfl
  obtain ⟨_, others⟩ := saves "out.h" ["out.h"] (by decide +kernel)
  obtain ⟨exit, nothing, gains, _⟩ := others ["-wo", "out.h", "f.snap"] (by decide +kernel)
  have shown : printed = _ := run_prints (by decide +kernel) rfl rfl starts
  have stopped : printed.exit = failed := by
    rw [shown]
    exact if_pos broken
  refine ⟨stopped, ?_, exit.trans stopped, nothing, gains ⟨loaded, v, starts⟩⟩
  intro empty
  rw [← (prints loaded v starts).1, empty] at written
  cases written

end StaticImage.Command
