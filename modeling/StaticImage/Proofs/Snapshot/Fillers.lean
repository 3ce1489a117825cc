import Mathlib.Data.List.Induction
import StaticImage.Proofs.Parsing.Taking
import StaticImage.Snapshot.Lexeme

/-!
What may stand between tokens: blanks, comments up to the end of their line and comments up to their
closing mark. A run of them is skipped as a whole, although a line that ends in a carriage return
takes a line feed behind it along.
-/

namespace StaticImage.Snapshot

open Parsing

inductive LineBreak where
  | feed
  | returnFeed
  | other (c : Char) (ends : Text.isLineEnd c = true)

def LineBreak.text : LineBreak → List Char
  | feed => ['\n']
  | returnFeed => ['\r', '\n']
  | other c _ => [c]

def endsLine (c : Char) : Bool :=
  c == '\n' || Text.isLineEnd c

inductive Filler where
  | blank (c : Char) (is : Text.isBlank c = true)
  | line (content : List Char) (inside : ∀ c ∈ content, endsLine c = false) (ending : LineBreak)
  | block (content : List Char) (inside : ¬ ['*', '/'] <:+: content)

namespace Filler

def text : Filler → List Char
  | blank c _ => [c]
  | line content _ ending => ['/', '/'] ++ (content ++ ending.text)
  | block content _ => ['/', '*'] ++ (content ++ ['*', '/'])

end Filler

def fillerText (fillers : List Filler) : List Char :=
  fillers.flatMap Filler.text

def startsFiller (c : Char) : Bool :=
  Text.isBlank c || c == '/'

theorem Filler.head?_text (f : Filler) : ∃ c ∈ f.text.head?, startsFiller c = true := by
  cases f with
  | blank c is => exact ⟨c, rfl, by simp [startsFiller, is]⟩
  | line => exact ⟨'/', rfl, rfl⟩
  | block => exact ⟨'/', rfl, rfl⟩

theorem Filler.text_ne_nil (f : Filler) : f.text ≠ [] := by
  obtain ⟨c, first, _⟩ := f.head?_text
  intro empty
  rw [empty] at first
  cases first

namespace Lexeme

variable {after left : List Char}

theorem feed_takes : ((Parser.one '\r').optional.both (Parser.one '\n')).Takes ['\n'] after
    fun _ => True := by
  have absent : '\r' ∉ (['\n'] ++ after).head? := by simp
  exact ((Parser.refuses_one absent).optional.both (Parser.takes_one '\n')).mono fun _ _ => trivial

theorem returnFeed_takes : ((Parser.one '\r').optional.both (Parser.one '\n')).Takes ['\r', '\n']
    after fun _ => True :=
  ((Parser.takes_one '\r').optional.both (Parser.takes_one '\n')).mono fun _ _ => trivial

/-- Behind a carriage return nothing but a line feed belongs to the end of a line. -/
theorem feed_refuses (c : Char) (other : c ≠ '\n') (alone : c = '\r' → '\n' ∉ after.head?) :
    ((Parser.one '\r').optional.both (Parser.one '\n')).Refuses (c :: after) := by
  by_cases same : c = '\r'
  · subst same
    exact (Parser.takes_one '\r').optional.both_refuses (Parser.refuses_one (alone rfl))
  · have absent : '\r' ∉ (c :: after).head? := by simpa using same
    have absent' : '\n' ∉ (c :: after).head? := by simpa using other
    exact (Parser.refuses_one absent).optional.both_refuses (Parser.refuses_one absent')

theorem lineEnd_takes (ending : LineBreak) (alone : ending.text = ['\r'] → '\n' ∉ after.head?) :
    lineEnd.Takes ending.text after fun _ => True := by
  cases ending with
  | feed => exact (feed_takes.map _ fun _ _ => trivial).or _
  | returnFeed => exact (returnFeed_takes.map _ fun _ _ => trivial).or _
  | other c ends =>
      have apart : c ≠ '\n' := by
        rintro rfl
        cases ends
      refine ((feed_refuses c apart fun same => alone (same ▸ rfl)).map _).or_takes ?_
      exact (Parser.takes_filter ends).map _ fun _ _ => trivial

theorem lineEnd_refuses (c : Char) (inside : endsLine c = false) : lineEnd.Refuses (c :: left) := by
  obtain ⟨feed, ends⟩ := Bool.or_eq_false_iff.mp inside
  have apart : c ≠ '\n' := by simpa using feed
  refine ((feed_refuses c apart ?_).map _).or ((Parser.refuses_filter ?_).map _)
  · rintro rfl
    cases ends
  · simpa using ends

theorem lineComment_takes (content : List Char) (inside : ∀ c ∈ content, endsLine c = false)
    (ending : LineBreak) (alone : ending.text = ['\r'] → '\n' ∉ after.head?) :
    lineComment.Takes (Filler.line content inside ending).text after fun _ => True := by
  have ended : (lineEnd.or Parser.ending).Takes ending.text after fun _ => True :=
    (lineEnd_takes ending alone).or _
  have skipped : (lineEnd.or Parser.ending).skipUntil.Takes (content ++ ending.text) after
      fun _ => True := by
    refine ended.skipUntil fun front t back split => ?_
    have shut := inside t (by simp [split])
    exact (lineEnd_refuses t shut).or Parser.refuses_ending
  have mark := ((Parser.takes_one '/').both (Parser.takes_one '/')).both skipped
  exact mark.map _ fun _ _ => trivial

theorem blockEnd_refuses {content back : List Char} {t : Char} {front : List Char}
    (inside : ¬ ['*', '/'] <:+: content) (split : content = front ++ t :: back) :
    ((Parser.one '*').both (Parser.one '/')).Refuses (t :: back ++ (['*', '/'] ++ after)) := by
  by_cases same : t = '*'
  · subst same
    refine (Parser.takes_one '*').both_refuses (Parser.refuses_one ?_)
    cases back with
    | nil => simp
    | cons u back =>
        intro first
        obtain rfl : u = '/' := by simpa using first
        exact inside (split ▸ ⟨front, back, by simp⟩)
  · exact (Parser.refuses_one (by simpa using same)).both _

theorem blockComment_takes (content : List Char) (inside : ¬ ['*', '/'] <:+: content) :
    blockComment.Takes (Filler.block content inside).text after fun _ => True := by
  have ended : ((Parser.one '*').both (Parser.one '/')).Takes ['*', '/'] after fun _ => True :=
    ((Parser.takes_one '*').both (Parser.takes_one '/')).mono fun _ _ => trivial
  have skipped : ((Parser.one '*').both (Parser.one '/')).skipUntil.Takes (content ++ ['*', '/'])
      after fun _ => True :=
    ended.skipUntil fun _ _ _ split => blockEnd_refuses inside split
  have mark := ((Parser.takes_one '/').both (Parser.takes_one '*')).both skipped
  exact mark.map _ fun _ _ => trivial

def filler : Lexer Unit :=
  (((Parser.filter Text.isBlank).map fun _ => ()).or lineComment).or blockComment

theorem filler_takes (f : Filler)
    (alone : ∀ content inside ending, f = .line content inside ending → ending.text = ['\r'] →
      '\n' ∉ after.head?) : filler.Takes f.text after fun _ => True := by
  have slash (more : List Char) : ((Parser.filter Text.isBlank).map fun _ => ()).Refuses
      ('/' :: more) := by
    refine (Parser.refuses_filter ?_).map _
    simp [Text.isBlank]
  cases f with
  | blank c is =>
      have taken : ((Parser.filter Text.isBlank).map fun _ => ()).Takes [c] after fun _ => True :=
        (Parser.takes_filter is).map _ fun _ _ => trivial
      exact (taken.or _).or _
  | line content inside ending =>
      have taken := lineComment_takes content inside ending (alone content inside ending rfl)
      exact ((slash _).or_takes taken).or _
  | block content inside =>
      have apart : lineComment.Refuses ((Filler.block content inside).text ++ after) := by
        refine Parser.Refuses.map (Parser.Refuses.both ?_ _) _
        exact (Parser.takes_one '/').both_refuses (Parser.refuses_one (by simp))
      exact ((slash _).or apart).or_takes (blockComment_takes content inside)

theorem filler_refuses (closed : ∀ c ∈ left.head?, startsFiller c = false) :
    filler.Refuses left := by
  have blank : ∀ c ∈ left.head?, Text.isBlank c = false := fun c first =>
    (Bool.or_eq_false_iff.mp (closed c first)).1
  have slash : '/' ∉ left.head? := fun first => by cases closed '/' first
  have mark := Parser.refuses_one slash
  refine (((Parser.refuses_filter blank).map _).or ?_).or ?_
  · exact ((mark.both _).both _).map _
  · exact ((mark.both _).both _).map _

theorem feed_of_head? (f : Filler) (more : List Char) (first : '\n' ∈ (f.text ++ more).head?) :
    f.text = ['\n'] := by
  cases f with
  | blank c is =>
      cases first
      rfl
  | line | block => cases first

/-- Fillers are taken one after the other, but a line feed may go with the line before it. -/
theorem fillers_take (fillers : List Filler)
    (closed : ∀ c ∈ after.head?, startsFiller c = false) :
    filler.TakesAll (fillerText fillers) after fun _ => True := by
  have feed : '\n' ∉ after.head? := fun first => by cases closed '\n' first
  have next (f : Filler) (rest : List Filler)
      (alone : ∀ content inside ending, f = .line content inside ending → ending.text = ['\r'] →
        '\n' ∉ (fillerText rest ++ after).head?)
      (others : filler.TakesAll (fillerText rest) after fun _ => True) :
      filler.TakesAll (fillerText (f :: rest)) after fun _ => True :=
    Parser.TakesAll.cons (filler_takes f alone) f.text_ne_nil others fun _ _ _ _ => trivial
  induction fillers using List.twoStepInduction with
  | nil => exact Parser.takesAll_nil trivial
  | singleton f => exact next f [] (fun _ _ _ _ _ => feed) (Parser.takesAll_nil trivial)
  | cons_cons f g rest ih ih' =>
      by_cases joined : ∃ content inside ending, f = .line content inside ending ∧
          ending.text = ['\r'] ∧ g.text = ['\n']
      · obtain ⟨content, inside, ending, rfl, returns, feeds⟩ := joined
        have whole := next (.line content inside .returnFeed) rest (fun _ _ _ same returns => ?_) ih
        · have text : fillerText (.line content inside ending :: g :: rest) =
              fillerText (.line content inside .returnFeed :: rest) := by
            simp only [fillerText, List.flatMap_cons, feeds]
            simp only [Filler.text, returns, List.append_assoc]
            rfl
          rwa [text]
        · cases same
          cases returns
      · refine next f (g :: rest) (fun content inside ending same returns feed => joined ?_) (ih' g)
        rw [fillerText, List.flatMap_cons, List.append_assoc] at feed
        exact ⟨content, inside, ending, same, returns, feed_of_head? g _ feed⟩

theorem blanks_takes (fillers : List Filler) (closed : ∀ c ∈ after.head?, startsFiller c = false) :
    blanks.Takes (fillerText fillers) after fun _ => True :=
  ((fillers_take fillers closed).many (filler_refuses closed)).map _ fun _ _ => trivial

end Lexeme

end StaticImage.Snapshot
