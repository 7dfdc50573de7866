import FractalD.Machine.Shell
import FractalD.Supervisor.Expansion

namespace FractalD.Supervisor.ShellScript

open FractalD.Core.Spec FractalD.Machine.CString FractalD.Machine.OrderedMap FractalD.Machine.Scan
open FractalD.Machine.Shell FractalD.Supervisor.Expansion

/-- A command with what a script does about it. -/
structure ShellCommand extends CommandSpec where
  ignoreFailure : Bool
  expandEnvironment : Bool
  deriving DecidableEq, Repr

def shellQuote (value : Str) : Str :=
  '\'' :: (replace ['\''] "'\\''".toList value ++ ['\''])

section

variable (around : Surroundings) (commands : List ShellCommand) (mainPid : Option Nat)
variable (spec : ServiceSpec) (environment : Environment)

def scriptLine (command : ShellCommand) : Str :=
  let expand argument := expandCommandArgument around argument spec environment mainPid
    command.expandEnvironment
  shellQuote (expand command.program) ++
    command.args.flatMap (fun argument => ' ' :: shellQuote (expand argument)) ++
    (if command.ignoreFailure then " || true".toList else []) ++ ['\n']

def shellScript : Except Str Str :=
  if commands = [] then .error "command list is empty".toList
  else .ok ("set -e\n".toList ++ commands.flatMap (scriptLine around mainPid spec environment))

def expanded (command : ShellCommand) : List Str :=
  (command.program :: command.args).map fun argument =>
    expandCommandArgument around argument spec environment mainPid command.expandEnvironment

/-- What the shell is meant to read for a command. -/
def commandTokens (command : ShellCommand) : List Token :=
  (expanded around mainPid spec environment command).map (fun text => .word (literal text)) ++
    (if command.ignoreFailure then [.operator "||".toList, .word (unquoted "true".toList)]
      else []) ++ [.operator "\n".toList]

end

section

variable {s t : Str} {w : Option Word}

/-- A text with its quotes replaced is read back between quotes. -/
theorem tokensFrom_replace (v : Word) (value : Str) :
    tokensFrom (.single v) (replace ['\''] "'\\''".toList value ++ t) =
      tokensFrom (.single (v ++ literal value)) t := by
  induction value generalizing v with
  | nil => rw [replace_nil, List.nil_append, literal, List.map_nil, List.append_nil]
  | cons c value ih =>
    have hliteral : v ++ literal (c :: value) = v ++ [(c, true)] ++ literal value := by
      rw [List.append_assoc]
      rfl
    by_cases hc : c = '\''
    · subst hc
      have hreplace : replace ['\''] "'\\''".toList ('\'' :: value) =
          "'\\''".toList ++ replace ['\''] "'\\''".toList value :=
        replace_pattern (List.cons_ne_nil _ _)
      rw [hreplace, hliteral, ← ih]
      -- the quotes are closed, the quote is escaped, and the quotes are opened again
      exact (tokensFrom_quiet rfl).trans
        ((tokensFrom_quiet rfl).trans ((tokensFrom_quiet rfl).trans (tokensFrom_quiet rfl)))
    · have hnot : ¬ ['\''] <+: c :: value := fun h => hc (List.cons_prefix_cons.mp h).1.symm
      have hstep : step (.single v) c = some ([], .single (v ++ [(c, true)])) := by
        rw [step, if_neg hc]
      rw [replace_other hnot, List.cons_append, tokensFrom_quiet hstep, ih, hliteral]

theorem tokensFrom_shellQuote (value : Str) :
    tokensFrom (.plain w) (shellQuote value ++ t) =
      tokensFrom (.plain (some (w.getD [] ++ literal value))) t := by
  have hopen : step (.plain w) '\'' = some ([], .single (w.getD [])) := rfl
  rw [shellQuote, List.cons_append, tokensFrom_quiet hopen, List.append_assoc, tokensFrom_replace]
  exact tokensFrom_quiet rfl

theorem tokensFrom_arguments {out : Option (List Token)}
    (ht : ∀ v, tokensFrom (.plain (some v)) t = out.map (Token.word v :: ·)) (expand : Str → Str)
    (args : List Str) (v : Word) :
    tokensFrom (.plain (some v))
        (args.flatMap (fun argument => ' ' :: shellQuote (expand argument)) ++ t) =
      out.map (((v :: args.map fun argument => literal (expand argument)).map Token.word) ++ ·) := by
  induction args generalizing v with
  | nil => exact ht v
  | cons argument args ih =>
    rw [List.flatMap_cons, List.append_assoc, List.cons_append, tokensFrom_blank ' ' (by decide),
      tokensFrom_shellQuote, Option.getD_none, List.nil_append, ih, Option.map_map]
    rfl

theorem tokensFrom_ignored (v : Word) :
    tokensFrom (.plain (some v)) (" || true".toList ++ '\n' :: s) =
      (tokensFrom (.plain none) s).map ([.word v, .operator "||".toList,
        .word (unquoted "true".toList), .operator "\n".toList] ++ ·) := by
  have hend : ∀ c, ['|', '|'] ++ [c] ∉ operators ∧ ['|', '|'] ++ [c] ≠ ['<', '<'] := by
    intro c
    simp [operators]
  have htext : " || true".toList ++ '\n' :: s =
      ' ' :: '|' :: '|' :: ' ' :: ("true".toList ++ '\n' :: s) := rfl
  have hfirst : step (.plain none) '|' = some ([], .operator ['|']) := rfl
  have hsecond : step (.operator ['|']) '|' = some ([], .operator ['|', '|']) := rfl
  rw [htext, tokensFrom_blank ' ' (by decide), tokensFrom_quiet hfirst, tokensFrom_quiet hsecond,
    tokensFrom_operator hend,
    tokensFrom_blank ' ' (by decide), tokensFrom_ordinary (by decide) (forall_of_all (by decide)),
    tokensFrom_newline, Option.map_map, Option.map_map, Option.map_map]
  rfl

variable (around : Surroundings) (commands : List ShellCommand) (mainPid : Option Nat)
variable (spec : ServiceSpec) (environment : Environment)

theorem tokensFrom_scriptLine (command : ShellCommand) :
    tokensFrom (.plain none) (scriptLine around mainPid spec environment command ++ s) =
      (tokensFrom (.plain none) s).map (commandTokens around mainPid spec environment command ++ ·) := by
  rw [scriptLine, List.append_assoc, List.append_assoc, List.append_assoc, tokensFrom_shellQuote,
    Option.getD_none, List.nil_append, List.singleton_append, commandTokens, expanded]
  cases command.ignoreFailure with
  | false =>
    have hend : ∀ v, tokensFrom (.plain (some v)) ([] ++ '\n' :: s) =
        ((tokensFrom (.plain none) s).map (.operator "\n".toList :: ·)).map (Token.word v :: ·) := by
      intro v
      rw [List.nil_append, tokensFrom_newline, Option.map_map]
      rfl
    rw [if_neg (by decide), if_neg (by decide), tokensFrom_arguments hend, Option.map_map]
    congr 1
    funext out
    simp
  | true =>
    have hend : ∀ v, tokensFrom (.plain (some v)) (" || true".toList ++ '\n' :: s) =
        ((tokensFrom (.plain none) s).map ([.operator "||".toList,
          .word (unquoted "true".toList), .operator "\n".toList] ++ ·)).map (Token.word v :: ·) := by
      intro v
      rw [tokensFrom_ignored, Option.map_map]
      rfl
    rw [if_pos rfl, if_pos rfl, tokensFrom_arguments hend, Option.map_map]
    congr 1
    funext out
    simp

theorem tokensFrom_lines :
    tokensFrom (.plain none) (commands.flatMap (scriptLine around mainPid spec environment)) =
      some (commands.flatMap (commandTokens around mainPid spec environment)) := by
  induction commands with
  | nil => rfl
  | cons command commands ih =>
    rw [List.flatMap_cons, tokensFrom_scriptLine, ih, List.flatMap_cons, Option.map_some]

/-- The shell reads a script as its commands, with each character of what they were expanded to
quoted. -/
theorem shellScript_tokens {script : Str}
    (h : shellScript around commands mainPid spec environment = .ok script) :
    tokens script = some
      (.word (unquoted "set".toList) :: .word (unquoted "-e".toList) :: .operator "\n".toList ::
        commands.flatMap (commandTokens around mainPid spec environment)) := by
  rw [shellScript] at h
  split at h
  · cases h
  · cases h
    have htext : "set -e\n".toList = "set".toList ++ ' ' :: ("-e".toList ++ ['\n']) := rfl
    rw [tokens, htext, List.append_assoc, tokensFrom_ordinary (by decide) (forall_of_all (by decide)),
      List.cons_append, tokensFrom_blank ' ' (by decide), List.append_assoc,
      tokensFrom_ordinary (by decide) (forall_of_all (by decide)), List.singleton_append, tokensFrom_newline,
      tokensFrom_lines]
    rfl

/-- An argument that tries to end its quotes, with a variable that does the same. -/
theorem shellScript_tokens_injected :
    shellScript ⟨fun _ => none, 0, fun _ => none⟩
        [⟨⟨"/bin/echo".toList, ["'; $X\n".toList, "$MAINPID".toList]⟩, true, true⟩] (some 7)
        { name := "a.svc".toList, program := "/bin/a".toList } (empty.insert ['X'] "`b`'".toList) =
      .ok "set -e\n'/bin/echo' ''\\''; `b`'\\''\n' '7' || true\n".toList ∧
    tokens "set -e\n'/bin/echo' ''\\''; `b`'\\''\n' '7' || true\n".toList = some
      [.word (unquoted "set".toList), .word (unquoted "-e".toList), .operator "\n".toList,
        .word (literal "/bin/echo".toList), .word (literal "'; `b`'\n".toList),
        .word (literal "7".toList), .operator "||".toList, .word (unquoted "true".toList),
        .operator "\n".toList] :=
  have hscript : shellScript ⟨fun _ => none, 0, fun _ => none⟩
        [⟨⟨"/bin/echo".toList, ["'; $X\n".toList, "$MAINPID".toList]⟩, true, true⟩] (some 7)
        { name := "a.svc".toList, program := "/bin/a".toList } (empty.insert ['X'] "`b`'".toList) =
      .ok "set -e\n'/bin/echo' ''\\''; `b`'\\''\n' '7' || true\n".toList := by decide +kernel
  ⟨hscript, (shellScript_tokens _ _ _ _ _ hscript).trans (by decide +kernel)⟩

end

end FractalD.Supervisor.ShellScript
