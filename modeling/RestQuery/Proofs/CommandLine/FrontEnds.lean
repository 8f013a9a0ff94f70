import Mathlib
import RestQuery.CommandLine.Run
import RestQuery.Proofs.Compile.Body
import RestQuery.Proofs.Request.JsonForm

/-!
# One request for every caller

A program that asks for the text of a request, and a command line that reads the query from its
input, come to the same request or to the same error.  The two JSON texts, one compact and one
over several lines, say the same, and the request can be told from it.

* `AsksFor`             arguments that ask for the request in a format;
* `run_of_asksFor`      what such arguments print;
* `front_ends_agree`    a program and a command line on the same text.
-/

namespace RestQuery.CommandLine

open Json

/-- the arguments ask for the request in this format, the query standing in the input -/
def AsksFor (f : OutputFormat) (args : List String) : Prop :=
  Command.parse args = .ok (.compile { format := f })

section
variable {f : OutputFormat} {args : List String} (h : AsksFor f args) {text : String}
  (file : String → Option String)
include h

theorem run_of_asksFor :
    run text file args = (answerCompile { format := f } text).mapError Failure.command := by
  rw [run, h]
  simp only [Command.source, Source.read, Command.answer]
  cases answerCompile { format := f } text <;> rfl

theorem run_of_error {e : CompileError} (he : compileText {} text = .error e) :
    run text file args = .error (.command (.compile e)) := by
  rw [run_of_asksFor h, answerCompile, he]
  rfl

theorem run_of_ok {r : Request} (hr : compileText {} text = .ok r) :
    run text file args = .ok (printRequest { format := f } r ++ "\n") := by
  rw [run_of_asksFor h, answerCompile, hr]
  rfl

end

theorem compileToJson_of_error {text : String} {e : CompileError}
    (he : compileText {} text = .error e) : compileToJson text = .error e.line := by
  rw [compileToJson, he]

theorem compileToJson_of_ok {text : String} {r : Request} (hr : compileText {} text = .ok r) :
    compileToJson text = .ok r.toTree.compact := by
  rw [compileToJson, hr]

/-- either all fail with one message, or all succeed and both JSON texts say what tells the
request -/
theorem front_ends_agree (text : String) (file : String → Option String) :
    (∃ e, compileText {} text = .error e ∧ compileToJson text = .error e.line ∧
      ∀ f args, AsksFor f args →
        ∃ failure, run text file args = .error (.command failure) ∧ failure.message = e.line) ∨
    (∃ r compact, compileText {} text = .ok r ∧ compileToJson text = .ok compact ∧
      ∀ f args, AsksFor f args →
        ∃ printed, run text file args = .ok printed ∧
          (f = .json → r.FloatFree →
            Decoder.value.run compact = some r.toValue ∧
              Decoder.value.run printed = some r.toValue ∧
              ∀ r' : Request, r'.toValue = r.toValue → r' = r)) := by
  cases hc : compileText {} text with
  | error e =>
    left
    refine ⟨e, rfl, compileToJson_of_error hc, ?_⟩
    intro f args h
    exact ⟨.compile e, run_of_error h file hc, rfl⟩
  | ok r =>
    right
    refine ⟨r, r.toTree.compact, rfl, compileToJson_of_ok hc, ?_⟩
    intro f args h
    refine ⟨_, run_of_ok h file hc, ?_⟩
    rintro rfl hfloat
    have hfits : ∀ body, r.body = some body → (Value.obj body).Fits 126 :=
      fun body hbody => body_fits_of_compileText hc hbody
    have hcompact := Request.run_compact hfits hfloat
    have hprinted := Request.run_pretty_line hfits hfloat
    exact ⟨hcompact, hprinted, fun r' hr' => Request.toValue_injective hr'⟩

/-- a row of an empty list and of a text with a quotation mark and a line break -/
def noteText : String :=
  let row := Tree.object [("text", .text "\"\n"), ("a", .arr [])]
  let insertion := Tree.object [("mode", .text "insert"), ("source", .object [("values", row)])]
  (Tree.object [("resource", .text "note"), ("mutation", insertion)]).compact

def note : Request where
  method := .post
  path := "note"
  body := some [("a", .arr []), ("text", .str "\"\n")]

theorem front_ends_agree_note :
    AsksFor .line ["compile"] ∧ AsksFor .json ["-v", "compile", "-fjson"] ∧
      compileText {} noteText = .ok note ∧ note.FloatFree ∧
      ∃ compact printed, compileToJson noteText = .ok compact ∧
        run noteText (fun _ => none) ["-v", "compile", "-fjson"] = .ok printed ∧
        Decoder.value.run compact = some note.toValue ∧
        Decoder.value.run printed = some note.toValue := by
  have hline : AsksFor .line ["compile"] := rfl
  have hjson : AsksFor .json ["-v", "compile", "-fjson"] := rfl
  have hnote : compileText {} noteText = .ok note := by cbv
  have hfloat : note.FloatFree := by
    intro body hbody
    cases hbody
    simp
  refine ⟨hline, hjson, hnote, hfloat, ?_⟩
  rcases front_ends_agree noteText fun _ => none with ⟨e, he, -⟩ | ⟨r, compact, hr, hcompact, h⟩
  · cases hnote.symm.trans he
  · cases hnote.symm.trans hr
    obtain ⟨printed, hprinted, hsaid⟩ := h .json _ hjson
    obtain ⟨hleft, hright, -⟩ := hsaid rfl hfloat
    exact ⟨compact, printed, hcompact, hprinted, hleft, hright⟩

end RestQuery.CommandLine
