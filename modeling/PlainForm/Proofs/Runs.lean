import Mathlib.Data.List.TakeWhile
import PlainForm.Text

/-!
# Runs of characters

A run holds characters of one class, and what follows it begins with none of them. Tokens and
notations are read by taking a run as far as it goes.
-/

namespace PlainForm.Text

variable {p : CodePoint → Bool} {run rest t : Text}

/-- The text does not begin with a character of the class. -/
def StopsRun (p : CodePoint → Bool) (rest : Text) : Prop := ∀ c ∈ rest.head?, ¬ p c

theorem stopsRun_nil (p : CodePoint → Bool) : StopsRun p [] := by simp [StopsRun]

theorem stopsRun_cons {c : CodePoint} : StopsRun p (c :: rest) ↔ ¬ p c := by simp [StopsRun]

theorem takeWhile_run (hall : ∀ c ∈ run, p c) (hstop : StopsRun p rest) :
    (run ++ rest).takeWhile p = run := by
  rw [List.takeWhile_append_of_pos hall]
  cases rest with
  | nil => simp
  | cons c rest => rw [List.takeWhile_cons_of_neg (stopsRun_cons.1 hstop), List.append_nil]

theorem dropWhile_run (hall : ∀ c ∈ run, p c) (hstop : StopsRun p rest) :
    (run ++ rest).dropWhile p = rest := by
  rw [List.dropWhile_append_of_pos hall]
  cases rest with
  | nil => simp
  | cons c rest => rw [List.dropWhile_cons_of_neg (stopsRun_cons.1 hstop)]

theorem exists_run (p : CodePoint → Bool) (t : Text) :
    ∃ run rest, t = run ++ rest ∧ (∀ c ∈ run, p c) ∧ StopsRun p rest := by
  refine ⟨t.takeWhile p, t.dropWhile p, List.takeWhile_append_dropWhile.symm,
    fun c hc => List.mem_takeWhile_imp hc, ?_⟩
  intro c hc
  have hhead := List.head?_dropWhile_not p t
  rw [Option.mem_def.1 hc] at hhead
  simpa using hhead

end PlainForm.Text
