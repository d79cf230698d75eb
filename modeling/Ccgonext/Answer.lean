import Ccgonext.Turns

/-!
# The answer of a turn

An answer is rebuilt from what the bounded log still holds, and a chunk in it is
told apart only by the id of the session. So it holds every chunk of the turn as
long as the log does, and only chunks of the client that was prompted as long as
the reader of an earlier client leaves no chunk in the log.
-/

namespace Ccgonext.Answer
open Lib Lib.Runs Events Session Updates Conversation

def writerOf (w : World) (e : SessionEvent) : Option Writer := w.writers[e.seq - 1]?

def byReader (w : World) (readers : ClientId → Bool) (e : SessionEvent) : Bool :=
  match writerOf w e with
  | some (.reader client) => readers client
  | _ => false

/-- The chunks that these readers appended for ask `i` between its `start_seq`
and the response of the prompt. -/
def chunks (w : World) (i : ℕ) (readers : ClientId → Bool) : List SessionEvent :=
  ((w.turns i).history.take ((w.turns i).responded.getD 0)).filter fun e =>
    isChunk w.id e ∧ (w.turns i).start ≤ e.seq ∧ byReader w readers e

def Foreign (w : World) (i : ℕ) (e : SessionEvent) : Prop :=
  ∃ client ≠ (w.turns i).client, writerOf w e = some (.reader client)

section
variable {id agent : String} {maxEntries now : ℕ} {acts : List Conversation.Action} {w : World}
  {i : ℕ} {text : String}

theorem answered_of_run (hrun : run World.step (.new id agent maxEntries now) acts = some w)
    (hok : w.sys.asks[i]? = some (.returned (.ok text))) :
    Answered w.id w.hist (w.turns i) text ∧ (w.turns i).history.Nodup ∧
      w.hist.log.maxEntries = maxEntries := by
  have hinv := run_inv hrun
  have hans := (hinv.turns i _ hok).answered text rfl
  exact ⟨hans, hans.history.sublist.nodup hinv.recorded.kept.nodup, hinv.maxEntries⟩

theorem chunks_sublist (readers : ClientId → Bool) :
    (chunks w i readers).Sublist (w.turns i).history :=
  List.filter_sublist.trans (List.take_sublist _ _)

theorem mem_chunks {readers : ClientId → Bool} {e : SessionEvent} (he : e ∈ chunks w i readers) :
    (w.turns i).takes w.id e = true := by
  have hp := (List.mem_filter.mp he).2
  simp only [decide_eq_true_eq] at hp
  exact takes_iff.mpr ⟨hp.1, .inr hp.2.1⟩

/-- The answer of an ask has all chunks that readers of the session appended for
it exactly when the log has room for everything pushed from the first of them
until the log is read. -/
theorem whole_iff_inReach
    (hrun : run World.step (.new id agent maxEntries now) acts = some w)
    (hok : w.sys.asks[i]? = some (.returned (.ok text))) (readers : ClientId → Bool) :
    text = textOf (w.turns i).collected ∧
      ((chunks w i readers).Sublist (w.turns i).collected ↔
        ((w.turns i).history.dropWhile (· ∉ chunks w i readers)).length ≤ maxEntries) := by
  obtain ⟨hans, hnd, hmax⟩ := answered_of_run hrun hok
  refine ⟨hans.text, ?_⟩
  rw [← BoundedQueue.sublist_rtake_iff hnd (chunks_sublist readers), hans.collected, hmax]
  constructor
  · intro hsub
    exact hsub.trans List.filter_sublist
  · intro hsub
    have hkeep : (chunks w i readers).filter ((w.turns i).takes w.id) = chunks w i readers :=
      List.filter_eq_self.mpr fun e he => mem_chunks he
    rw [← hkeep]
    exact hsub.filter _

end

def steps (i : ℕ) (os : List Outcome) : List Conversation.Action :=
  os.map fun o => .session (.askStep i o)

def appended (k : ℕ) : List Conversation.Action := [.push k, .send k]

/-- An ask that starts the agent and prompts it; `k` appends were made before. -/
def toPrompt (i k : ℕ) : List Conversation.Action :=
  [.session .ask] ++ steps i [.go, .go, .now 1, .go, .go, .go, .go, .go] ++ appended k ++
    steps i [.spawned (some 7), .go, .initialized, .opened "acp", .go, .go, .go, .go, .go] ++
    appended (k + 1) ++ steps i [.go, .go, .go] ++ appended (k + 2) ++
    steps i [.loaded (k + 4), .go, .go, .go]

def toReturn (i k min : ℕ) (text : String) : List Conversation.Action :=
  steps i [.answered "end_turn", .go, .go, .go] ++ appended k ++ steps i [.now 2, .go, .go] ++
    appended (k + 1) ++ steps i [.loaded min, .collected text, .go]

def toTimedOut (i k : ℕ) : List Conversation.Action :=
  steps i [.timedOut, .go, .go, .go, .go, .go, .go] ++ appended k ++ steps i [.go, .go, .go]

def chunk (client : ClientId) (text : String) (k : ℕ) : List Conversation.Action :=
  [.update client (.agentMessageChunk (.text text))] ++ appended k

def answeredRun : List Conversation.Action :=
  toPrompt 0 0 ++ chunk 0 "hel" 3 ++ chunk 0 "lo" 4 ++ [.respond 0] ++ toReturn 0 5 1 "hello"

theorem whole_answeredRun :
    ∃ w, run World.step (.new "s" "codex" 100 0) answeredRun = some w ∧
      (chunks w 0 (· = 0)).Sublist (w.turns 0).collected := by
  obtain ⟨w, hrun, hok, hroom⟩ := exists_run (s := World.new "s" "codex" 100 0)
    (fun w => w.sys.asks[0]? = some (.returned (.ok "hello")) ∧
      ((w.turns 0).history.dropWhile (· ∉ chunks w 0 (· = 0))).length ≤ 100)
    (by decide : (run World.step (.new "s" "codex" 100 0) answeredRun).any _ = true)
  exact ⟨w, hrun, (whole_iff_inReach hrun hok (· = 0)).2.mpr hroom⟩

def crowded : List Conversation.Action :=
  toPrompt 0 0 ++ chunk 0 "hello" 3 ++ [.respond 0] ++ toReturn 0 4 5 ""

/-- A log of two entries: what the ask itself appends after the response evicts
the only chunk, and the answer is empty. -/
theorem crowded_not_whole :
    ∃ w, run World.step (.new "s" "codex" 2 0) crowded = some w ∧
      w.sys.asks[0]? = some (.returned (.ok "")) ∧
      ∃ e ∈ chunks w 0 (· = (w.turns 0).client), e.payload = .messageChunk "hello" ∧
        e ∉ (w.turns 0).collected :=
  exists_run _ (by decide)

section
variable {id agent : String} {maxEntries now : ℕ} {acts : List Conversation.Action} {w : World}
  {i : ℕ} {text : String}

theorem foreign_of_not_own (hrun : run World.step (.new id agent maxEntries now) acts = some w)
    {e : SessionEvent} (hpushed : e ∈ w.hist.pushed) (hchunk : isChunk w.id e = true)
    (hne : writerOf w e ≠ some (.reader (w.turns i).client)) : Foreign w i e := by
  have hrec := (run_inv hrun).recorded
  obtain ⟨a, ha, hae, -, -⟩ := hrec.kept.append_eq hpushed
  obtain ⟨client, hwriter⟩ := hrec.own _ a ha (by rw [hae]; exact hchunk)
  refine ⟨client, ?_, hwriter⟩
  rintro rfl
  exact hne hwriter

/-- Every chunk of an answer came from the reader of the client that the ask
prompted exactly when, of the chunks that readers of other clients pushed since
`start_seq` was loaded, each had been evicted again, or had an earlier number
while `min_seq` was not past `start_seq`. -/
theorem own_iff_foreignGone
    (hrun : run World.step (.new id agent maxEntries now) acts = some w)
    (hok : w.sys.asks[i]? = some (.returned (.ok text))) :
    text = textOf (w.turns i).collected ∧
      ((∀ e ∈ (w.turns i).collected, writerOf w e = some (.reader (w.turns i).client)) ↔
        ∀ e ∈ (w.turns i).history.drop (w.turns i).mark, isChunk w.id e → Foreign w i e →
          maxEntries < ((w.turns i).history.dropWhile (· ≠ e)).length ∨
            e.seq < (w.turns i).start ∧ (w.turns i).min ≤ (w.turns i).start) := by
  obtain ⟨hans, hnd, hmax⟩ := answered_of_run hrun hok
  refine ⟨hans.text, ?_⟩
  constructor
  · intro hown e he hchunk hforeign
    have hin := List.mem_of_mem_drop he
    by_contra hcon
    rw [not_or, not_lt, ← BoundedQueue.mem_rtake_iff_dropWhile hnd hin, ← hmax] at hcon
    obtain ⟨hkept, hlate⟩ := hcon
    have hcoll : e ∈ (w.turns i).collected := by
      refine hans.mem_collected.mpr ⟨hkept, takes_iff.mpr ⟨hchunk, ?_⟩⟩
      omega
    obtain ⟨client, hne, hwriter⟩ := hforeign
    rw [hown e hcoll, Option.some.injEq, Writer.reader.injEq] at hwriter
    exact hne hwriter.symm
  · intro hgone e he
    obtain ⟨hkept, htakes⟩ := hans.mem_collected.mp he
    obtain ⟨hchunk, hrange⟩ := takes_iff.mp htakes
    have hlate := hans.pushed_late he
    have hin := List.mem_of_mem_drop hlate
    by_contra hne
    have hforeign := foreign_of_not_own hrun (hans.history.subset hin) hchunk hne
    rw [hmax, BoundedQueue.mem_rtake_iff_dropWhile hnd hin] at hkept
    rcases hgone e hlate hchunk hforeign with hevicted | ⟨hold, hmin⟩ <;> omega

end

/-- The first ask times out and marks its client dead, whose reader gets to a line
that it has read before the next ask starts a new client. -/
def replacedRun : List Conversation.Action :=
  toPrompt 0 0 ++ toTimedOut 0 3 ++ chunk 0 "stale" 4 ++ toPrompt 1 5 ++ chunk 1 "fresh" 8 ++
    [.respond 1] ++ toReturn 1 9 1 "fresh"

theorem own_replacedRun :
    ∃ w, run World.step (.new "s" "codex" 100 0) replacedRun = some w ∧
      w.sys.asks[0]? = some (.returned (.err .timedOut)) ∧
      w.sys.asks[1]? = some (.returned (.ok "fresh")) ∧ (w.turns 1).client = 1 ∧
      (∃ e ∈ w.hist.pushed, writerOf w e = some (.reader 0)) ∧
      ∀ e ∈ (w.turns 1).collected, writerOf w e = some (.reader (w.turns 1).client) := by
  obtain ⟨w, hrun, ⟨hdead, hok, hclient, hold⟩, hquiet⟩ :=
    exists_run (s := World.new "s" "codex" 100 0)
      (fun w => (w.sys.asks[0]? = some (.returned (.err .timedOut)) ∧
        w.sys.asks[1]? = some (.returned (.ok "fresh")) ∧ (w.turns 1).client = 1 ∧
        ∃ e ∈ w.hist.pushed, writerOf w e = some (.reader 0)) ∧
        ∀ e ∈ (w.turns 1).history.drop (w.turns 1).mark, isChunk w.id e →
          writerOf w e = some (.reader (w.turns 1).client))
      (by decide : (run World.step (.new "s" "codex" 100 0) replacedRun).any _ = true)
  refine ⟨w, hrun, hdead, hok, hclient, hold, (own_iff_foreignGone hrun hok).2.mpr ?_⟩
  rintro e he hchunk ⟨client, hne, hwriter⟩
  rw [hquiet e he hchunk, Option.some.injEq, Writer.reader.injEq] at hwriter
  exact absurd hwriter.symm hne

def stale : List Conversation.Action :=
  toPrompt 0 0 ++ toTimedOut 0 3 ++ toPrompt 1 4 ++ chunk 0 "stale" 7 ++ [.respond 1] ++
    toReturn 1 8 1 "stale"

theorem stale_not_own :
    ∃ w, run World.step (.new "s" "codex" 100 0) stale = some w ∧
      w.sys.asks[0]? = some (.returned (.err .timedOut)) ∧
      w.sys.asks[1]? = some (.returned (.ok "stale")) ∧ (w.turns 1).client = 1 ∧
      ∃ e ∈ (w.turns 1).collected, writerOf w e = some (.reader 0) :=
  exists_run _ (by decide)

end Ccgonext.Answer
