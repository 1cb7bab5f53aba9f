import IttyBittyServer.Header

/-! Headers as lines. A line ends at its first line end, and the empty line ends the header. -/
namespace IttyBittyServer.Lines
open Text
open Header (eol blankLine)

def header (lines : List (List UInt8)) : List UInt8 := (lines.map (· ++ eol)).flatten ++ eol

def IsLine (line : List UInt8) : Prop := line ≠ [] ∧ ¬ eol <:+: line

theorem endAfter {line after : List UInt8} (noEnd : ¬ eol <:+: line) :
    strstr (line ++ (eol ++ after)) eol = some (eol ++ after) := by
  refine (searchAfter fun zs some suffix => ?_).trans (searchHere (by simp))
  rcases zs with _ | ⟨a,_ | ⟨b,zs⟩⟩
  · exact absurd rfl some
  · simp [eol,List.isPrefixOf]
  · refine Bool.eq_false_iff.mpr fun starts => noEnd ?_
    have here : eol <+: a::b::zs := by simpa [eol,List.isPrefixOf] using starts
    exact here.isInfix.trans suffix.isInfix

theorem firstEnd {s : List UInt8} (ends : eol <:+: s) :
    ∃ line after, s = line ++ (eol ++ after) ∧ ¬ eol <:+: line := by
  cases found : strstr s eol with
  | none =>
    obtain ⟨pre,post,rfl⟩ := ends
    have here := searchNone.mp found (eol ++ post) ⟨pre,by simp⟩
    simp [eol,List.isPrefixOf] at here
  | some endOfLine =>
    obtain ⟨line,after,rfl,rfl,noEnd⟩ := Header.lineEnd found
    exact ⟨line,after,rfl,noEnd⟩

theorem headerCons (line : List UInt8) (lines : List (List UInt8)) :
    header (line::lines) = line ++ (eol ++ header lines) := by simp [header]

theorem endBehind {line left pre post : List UInt8} (noEnd : ¬ eol <:+: line)
    (h : line ++ (eol ++ left) = pre ++ (eol ++ post)) : left = post ∨ ∃ pre, left = pre ++ (eol ++ post) := by
  rcases List.append_eq_append_iff.mp h with ⟨more,_,rest⟩ | ⟨more,split,rest⟩
  · rcases more with _ | ⟨a,_ | ⟨b,more⟩⟩
    · exact Or.inl (List.append_cancel_left rest)
    · simp [eol] at rest
    · refine Or.inr ⟨more,?_⟩
      simpa [eol] using (List.cons.inj (List.cons.inj rest).2).2
  · rcases more with _ | ⟨a,_ | ⟨b,more⟩⟩
    · exact Or.inl (List.append_cancel_left rest).symm
    · simp [eol] at rest
    · have starts : eol <+: a::b::more := by
        refine ⟨more,?_⟩
        simp [eol] at rest
        simp [eol,rest.1,rest.2.1]
      exact absurd (starts.isInfix.trans ⟨pre,[],by simp [split]⟩) noEnd

theorem blankLast {lines : List (List UInt8)} {pre post : List UInt8} (each : ∀ l ∈ lines, IsLine l)
    (h : header lines = pre ++ (eol ++ (eol ++ post))) : post = [] := by
  induction lines generalizing pre with
  | nil =>
    have size := congrArg List.length h
    simp [header,eol] at size
    omega
  | cons line lines ih =>
    rw [headerCons] at h
    have later : ∀ l ∈ lines, IsLine l := fun l mem => each l (List.mem_cons_of_mem _ mem)
    rcases endBehind (each line List.mem_cons_self).2 h with here | ⟨pre,behind⟩
    · cases lines with
      | nil =>
        have same : eol ++ [] = eol ++ post := by simpa [header] using here
        exact (List.append_cancel_left same).symm
      | cons next lines =>
        obtain ⟨some,noEnd⟩ := later next List.mem_cons_self
        rw [headerCons] at here
        rcases next with _ | ⟨a,_ | ⟨b,next⟩⟩
        · exact absurd rfl some
        · simp [eol] at here
        · refine absurd ⟨[],next,?_⟩ noEnd
          simp [eol] at here
          simp [eol,here.1,here.2.1]
    · exact ih later behind

theorem headerEnds {line : List UInt8} {lines : List (List UInt8)} : blankLine <:+ header (line::lines) := by
  induction lines generalizing line with
  | nil => exact ⟨line,by simp [header,blankLine,eol]⟩
  | cons next lines ih =>
    obtain ⟨pre,same⟩ := @ih next
    exact ⟨line ++ eol ++ pre,by rw [headerCons,← same]; simp⟩

theorem firstBlankLine {lines : List (List UInt8)} (each : ∀ l ∈ lines, IsLine l) {p : List UInt8}
    (isPrefix : p <+: header lines) (shorter : p ≠ header lines) : ¬ blankLine <:+ p := by
  rintro ⟨pre,rfl⟩
  obtain ⟨post,same⟩ := isPrefix
  have last := @blankLast lines pre post each (by rw [← same]; simp [blankLine,eol])
  exact shorter (by simpa [last] using same)

theorem headerNoNul {lines : List (List UInt8)} (each : ∀ l ∈ lines, 0 ∉ l) : 0 ∉ header lines := by
  have noNul : (0 : UInt8) ∉ eol := by decide
  induction lines with
  | nil => exact noNul
  | cons line lines ih =>
    have later := ih fun l mem => each l (List.mem_cons_of_mem _ mem)
    rw [headerCons]
    simp [each line List.mem_cons_self,noNul,later]

end IttyBittyServer.Lines
