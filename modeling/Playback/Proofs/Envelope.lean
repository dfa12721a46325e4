import Playback.Proofs.Entries
import Playback.Proofs.JsonText
import Playback.Proofs.ReadBack
/-!
# Envelopes

A job that is written as an envelope reads back as the same job. Its question is a text within the
text, so it is escaped twice and read twice, and each answer comes back as the kind of value it was.
-/

namespace Playback.Proofs.Envelope

open Answers Codec Entries JsonText JsonValues Names ReadBack
open Json.Reader (maxDepth)

/-! ## Questions without the present day -/

section Questions

variable {q : Question}

/-- No answer is kept under a spelling of `Timenow`. -/
def Dateless (q : Question) : Prop := Spelled (fun name => isTimenow name = false) q

theorem dateless_set (h : Dateless q) (name : String) (a : Answer) : Dateless (q.set name a) := by
  by_cases hname : isTimenow name = true
  · rw [Question.set, if_pos hname]
    exact h
  · exact spelled_set h (Bool.eq_false_iff.2 hname) a

theorem dateless_push (h : Dateless q) (name : String) (v : Scalar) :
    Dateless (q.push name v) := by
  by_cases hname : isTimenow name = true
  · rw [Question.push, if_pos hname]
    exact h
  · exact spelled_push h (Bool.eq_false_iff.2 hname) v

theorem dateless_foldl (entries : List (String × Answer)) (h : Dateless q) :
    Dateless (entries.foldl (fun q e => q.set e.1 e.2) q) := by
  induction entries generalizing q with
  | nil => exact h
  | cons e rest ih => exact ih (dateless_set h e.1 e.2)

theorem dateless_reached (attrs : Dict Answer) (changes : List Change) :
    Dateless (reached attrs changes) := by
  have hstart : Dateless (.ofAttrs attrs) :=
    dateless_foldl attrs.entries fun entry hentry => absurd hentry List.not_mem_nil
  unfold reached
  generalize Question.ofAttrs attrs = q at hstart
  induction changes generalizing q with
  | nil => exact hstart
  | cons change rest ih =>
    apply ih
    cases change with
    | set name a => exact dateless_set hstart name a
    | push name v => exact dateless_push hstart name v
    | reset => exact spelled_reset hstart

theorem foldl_set {entries : List (String × Answer)}
    (h : ∀ entry ∈ entries, isTimenow entry.1 = false) (q : Question) :
    entries.foldl (fun q e => q.set e.1 e.2) q =
      ⟨entries.foldl (fun d e => d.insert e.1 e.2) q.attrs⟩ := by
  induction entries generalizing q with
  | nil => rfl
  | cons e rest ih =>
    have hset : q.set e.1 e.2 = ⟨q.attrs.insert e.1 e.2⟩ := by
      rw [Question.set, if_neg (by simp [h e List.mem_cons_self])]
    rw [List.foldl_cons, List.foldl_cons, hset, ih fun d hd => h d (List.mem_cons_of_mem e hd)]

theorem ofAttrs_attrs (h : Dateless q) : Question.ofAttrs q.attrs = q := by
  rw [Question.ofAttrs, foldl_set h]
  exact congrArg Question.mk (ofList_entries q.attrs)

theorem attrsOfJson_toJson (h : SoundParams q.attrs) :
    Question.attrsOfJson? q.toJson = some q.attrs := by
  have hmembers : (q.attrs.map Answer.toJson).entries.mapM
      (fun m => (Answer.ofJson? m.2).map fun a => (m.1, a)) = some q.attrs.entries := by
    apply mapM_map_eq_some
    intro entry hentry
    rw [faithful_answer.read_write (h entry hentry), Option.map_some]
  show ((q.attrs.map Answer.toJson).entries.mapM
      fun m => (Answer.ofJson? m.2).map fun a => (m.1, a)).map Dict.ofList = some q.attrs
  rw [hmembers, Option.map_some, ofList_entries]

theorem read_question (h : SoundParams q.attrs) : Json.read? q.toJson.compact = some q.toJson := by
  have htextual : Textual maxDepth q.toJson := (textual_params (proper_params h)).mono (by decide)
  exact read_spell tight htextual (toList_compact 0 q.toJson)

end Questions

/-! ## Envelopes -/

section Envelopes

variable {job : Job}

theorem read_envelope (job : Job) : Json.read? job.toText = some job.envelope := by
  refine read_members indented (fun m hm => ?_) (List.cons_ne_nil _ _) (toList_pretty 0 _)
  rcases List.mem_pair.1 hm with rfl | rfl
  · exact .str _
  · exact .str _

/-- The members of an envelope are found in whatever order they are kept. -/
theorem fields_envelope (job : Job) :
    job.envelope.canonical.fields? ["question", "filtro"] =
      some [some (.str job.question.toJson.compact), some (.str job.filter)] := by
  have hcanonical : job.envelope.canonical = .record
      [("question", .str job.question.toJson.compact), ("filtro", .str job.filter)] := rfl
  rw [hcanonical, Json.record, Json.fields?]
  simp only [List.map_cons, List.map_nil, member_record]
  rfl

theorem ofText_toText (hdate : Dateless job.question) (hsound : SoundParams job.question.attrs) :
    Job.ofText job.toText = .ok job := by
  have hparse : Json.parse? job.toText = some job.envelope.canonical := by
    rw [Json.parse?, read_envelope, Option.map_some]
  have hattrs : (Json.read? job.question.toJson.compact).bind Question.attrsOfJson? =
      some job.question.attrs := by
    rw [read_question hsound, Option.bind_some, attrsOfJson_toJson hsound]
  simp only [Job.ofText, hparse, Job.ofJson, fields_envelope, Option.bind_eq_bind,
    Option.bind_some, Json.string?, hattrs, ofAttrs_attrs hdate]

end Envelopes

/-- A job reads back from its envelope as it was, however its question has come about, unless it
holds a number that is infinite or none at all. -/
theorem envelope_round_trip (attrs : Dict Answer) (changes : List Change) (filter : String)
    (hsound : SoundParams (reached attrs changes).attrs) :
    Job.ofText (Job.toText ⟨reached attrs changes, filter⟩) =
      .ok ⟨reached attrs changes, filter⟩ :=
  ofText_toText (dateless_reached attrs changes) hsound

/-! ## Marks of the notation -/

/-- Names and texts that have to be escaped, and numbers that look like one another. -/
def awkward : Dict Answer :=
  .ofList [("Saldo \"R$\"", .one (.float (.finite false 5629499534213120 (-50)))),
    ("Número\n", .list [.int 5, .text "5", .bool true]), ("timenow", .text "01-01-1999")]

def additions : List Change := [.push "Número\n" (.text "\\\"\t\"é"), .set "Timenow" .empty]

theorem awkward_facts :
    (reached awkward additions).attrs.entries =
      [("Número\n", .list [.int 5, .text "5", .bool true, .text "\\\"\t\"é"]),
        ("Saldo \"R$\"", .one (.float (.finite false 5629499534213120 (-50))))] := by
  decide +kernel

theorem awkward_reads_back :
    SoundParams (reached awkward additions).attrs ∧
    Job.ofText (Job.toText ⟨reached awkward additions, "Input \\"⟩) =
      .ok ⟨reached awkward additions, "Input \\"⟩ := by
  have hsound : SoundParams (reached awkward additions).attrs := by
    intro entry hentry
    rw [awkward_facts] at hentry
    rcases List.mem_pair.1 hentry with rfl | rfl
    · have hfive : SoundScalar (.int 5) := ⟨by decide, by decide⟩
      simpa [SoundAnswer, SoundScalar] using hfive
    · exact ⟨by decide, by decide, by decide, .inl (by decide)⟩
  exact ⟨hsound, envelope_round_trip awkward additions "Input \\" hsound⟩

end Playback.Proofs.Envelope
