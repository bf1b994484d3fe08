import CodeIndex.Proofs.Sync.Counts
import Mathlib.Data.List.ReduceOption

/-!
The calls of the provider in a run.

A run asks the provider for one text after another, for each chunk and for each component that has one,
and it stops at the first answer that says that the provider is gone. The answer to a call goes to the
row that the call is for and to no other.

* `Provider.calls` are the texts that are asked for out of all that there are, and `Provider.Carries`
  says that a row has the vector of its own call, if there was one;
* `Embedder.serve` goes through requests; `provider_after` and `carries_serve` are the calls that it makes
  and what becomes of the answers;
* `map_embedding_rows`: a run is such a going through the requests for its rows, and
  `run_asks_until_gone` is what follows for the run.
-/
namespace CodeIndex

/-! ## Calls -/

namespace Provider

/-- Whether an answer says that the provider is gone. -/
def isGone : EmbeddingReply → Bool
  | .error (.unavailable _) => true
  | _ => false

/-- The answers to the next calls, if they are for the given texts. -/
def replies (p : Provider) (texts : List String) : List EmbeddingReply :=
  (texts.zipIdx (p.asked.length + 1)).map fun (text, call) => p.answer call text

/-- The texts up to the first one to which the provider answers that it is gone, with that one. -/
def untilGone (p : Provider) (texts : List String) : List String :=
  texts.take ((p.replies texts).findIdx isGone + 1)

/-- The texts that a provider is asked for out of those that there are: none if it is not there. -/
def calls (p : Provider) (texts : List String) : List String :=
  if p.available then p.untilGone texts else []

/-- The provider after it has been asked for texts. -/
def after (p : Provider) (texts : List String) : Provider :=
  { p with asked := texts.reverse ++ p.asked }

/-- What a row has that was to get the answer to call `call` of those for `texts`, if `made` calls were
made: the vector, if the call was made and the answer was one. -/
def Carries (p : Provider) (texts : List String) (made : Nat) (call : Option Nat)
    (kept : Option StoredVector) : Prop :=
  ∀ stored, kept = some stored ↔ ∃ i v, call = some i ∧ i < made ∧
    (p.replies texts)[i]? = some (.ok v) ∧ stored = .ofEmbedding ⟨v, p.model⟩

variable {p : Provider} {texts : List String} {text : String}

theorem replies_cons : p.replies (text :: texts) =
    p.answer (p.asked.length + 1) text :: (p.after [text]).replies texts := rfl

theorem untilGone_of_gone (h : isGone (p.answer (p.asked.length + 1) text) = true) :
    p.untilGone (text :: texts) = [text] := by
  simp [untilGone, replies_cons, List.findIdx_cons, h]

theorem untilGone_of_there (h : isGone (p.answer (p.asked.length + 1) text) = false) :
    p.untilGone (text :: texts) = text :: (p.after [text]).untilGone texts := by
  simp [untilGone, replies_cons, List.findIdx_cons, h]

theorem after_after (more : List String) : (p.after texts).after more = p.after (texts ++ more) := by
  simp [after]

theorem Carries.nothing {made : Nat} : p.Carries texts made none none := by
  intro stored
  simp

theorem Carries.late {made i : Nat} (h : made ≤ i) : p.Carries texts made (some i) none := by
  intro stored
  simp only [reduceCtorEq, Option.some.injEq, false_iff, not_exists, not_and]
  rintro _ v rfl hi
  omega

/-- The first call is made, and its answer is for its row. -/
theorem Carries.first {made : Nat} (h : 0 < made) :
    p.Carries (text :: texts) made (some 0)
      ((p.answer (p.asked.length + 1) text).toOption.map fun v => .ofEmbedding ⟨v, p.model⟩) := by
  intro stored
  rw [replies_cons]
  cases p.answer (p.asked.length + 1) text with
  | error fault => simp [Except.toOption]
  | ok v => simp [Except.toOption, h, eq_comm]

/-- The calls after the first one go on as if they were all. -/
theorem Carries.later {made : Nat} {call : Option Nat} {kept : Option StoredVector}
    (h : (p.after [text]).Carries texts made call kept) :
    p.Carries (text :: texts) (made + 1) (call.map (· + 1)) kept := by
  intro stored
  rw [h stored, replies_cons]
  cases call with
  | none => simp
  | some i => simp [after]

end Provider

/-! ## Requests -/

namespace Embedder

/-- Asks for a text, if there is one. -/
def request (e : Embedder) : Option String → Option Embedding × Embedder
  | some text => e.embed text
  | none => (none, e)

/-- What requests are answered with, one after another. -/
def serve : Embedder → List (Option String) → List (Option Embedding)
  | _, [] => []
  | e, r :: requests => (e.request r).1 :: serve (e.request r).2 requests

/-- The embedder after requests. -/
def afterRequests : Embedder → List (Option String) → Embedder :=
  List.foldl fun e r => (e.request r).2

/-- The number of the call for a request, counted from zero: as many as there are texts to be asked for
before it. -/
def callOf (requests : List (Option String)) (j : Nat) : Option Nat :=
  (requests[j]?.bind id).map fun _ => (requests.take j).reduceOption.length

theorem callOf_none_succ (requests : List (Option String)) (j : Nat) :
    callOf (none :: requests) (j + 1) = callOf requests j := by
  simp [callOf, List.reduceOption_cons_of_none]

theorem callOf_some_succ (text : String) (requests : List (Option String)) (j : Nat) :
    callOf (some text :: requests) (j + 1) = (callOf requests j).map (· + 1) := by
  simp [callOf, List.reduceOption_cons_of_some, Function.comp_def]

theorem afterRequests_append (e : Embedder) (requests more : List (Option String)) :
    e.afterRequests (requests ++ more) = (e.afterRequests requests).afterRequests more :=
  List.foldl_append

theorem serve_append (e : Embedder) (requests more : List (Option String)) :
    e.serve (requests ++ more) = e.serve requests ++ (e.afterRequests requests).serve more := by
  induction requests generalizing e with
  | nil => rfl
  | cons r requests ih => simp only [List.cons_append, serve, ih]; rfl

/-- Who is asked answers, and is asked again unless he says that he is gone. -/
theorem embed_active (p : Provider) (text : String) :
    (⟨some p, true⟩ : Embedder).embed text =
      ((p.answer (p.asked.length + 1) text).toOption.map (⟨·, p.model⟩),
        ⟨some (p.after [text]), !Provider.isGone (p.answer (p.asked.length + 1) text)⟩) := by
  simp only [embed, Provider.ask]
  cases p.answer (p.asked.length + 1) text with
  | ok v => rfl
  | error fault => cases fault <;> rfl

theorem request_idle {e : Embedder} (h : e.active = false) (r : Option String) :
    e.request r = (none, e) := by
  cases r with
  | none => rfl
  | some text => simp [request, embed, h]

theorem afterRequests_idle {e : Embedder} (h : e.active = false) (requests : List (Option String)) :
    e.afterRequests requests = e := by
  induction requests with
  | nil => rfl
  | cons r requests ih => rw [afterRequests, List.foldl_cons, request_idle h]; exact ih

theorem serve_idle {e : Embedder} (h : e.active = false) (requests : List (Option String)) :
    e.serve requests = List.replicate requests.length none := by
  induction requests with
  | nil => rfl
  | cons r requests ih => rw [serve, request_idle h, ih]; rfl

/-- The provider is asked for the texts of the requests until it says that it is gone. -/
theorem provider_after (p : Provider) (requests : List (Option String)) :
    ((⟨some p, true⟩ : Embedder).afterRequests requests).provider =
      some (p.after (p.untilGone requests.reduceOption)) := by
  induction requests generalizing p with
  | nil => simp [afterRequests, Provider.untilGone, Provider.after]
  | cons r requests ih =>
    cases r with
    | none => exact ih p
    | some text =>
      rw [afterRequests, List.foldl_cons, request, embed_active, List.reduceOption_cons_of_some]
      cases hgone : Provider.isGone (p.answer (p.asked.length + 1) text) with
      | true =>
        rw [Provider.untilGone_of_gone hgone]
        exact congrArg provider (afterRequests_idle rfl requests)
      | false =>
        rw [Provider.untilGone_of_there hgone]
        refine (ih (p.after [text])).trans ?_
        rw [Provider.after_after, List.singleton_append]

/-- Each request is answered with the vector of its own call, if there is one. -/
theorem carries_serve (p : Provider) (requests : List (Option String)) {j : Nat}
    {kept : Option Embedding} (h : ((⟨some p, true⟩ : Embedder).serve requests)[j]? = some kept) :
    p.Carries requests.reduceOption (p.untilGone requests.reduceOption).length (callOf requests j)
      (kept.map .ofEmbedding) := by
  induction requests generalizing p j with
  | nil => cases h
  | cons r requests ih =>
    cases r with
    | none =>
      rw [List.reduceOption_cons_of_none]
      cases j with
      | zero =>
        cases h
        exact .nothing
      | succ j =>
        rw [callOf_none_succ]
        exact ih p h
    | some text =>
      rw [serve, request, embed_active] at h
      rw [List.reduceOption_cons_of_some]
      cases j with
      | zero =>
        cases h
        rw [Option.map_map]
        refine Provider.Carries.first ?_
        simp [Provider.untilGone]
      | succ j =>
        rw [callOf_some_succ]
        cases hgone : Provider.isGone (p.answer (p.asked.length + 1) text) with
        | true =>
          -- no further call is made
          rw [hgone, List.getElem?_cons_succ, serve_idle rfl] at h
          obtain rfl : kept = none := by
            obtain ⟨_, hkept⟩ := List.getElem?_eq_some_iff.1 h
            simpa using hkept.symm
          rw [Provider.untilGone_of_gone hgone]
          cases callOf requests j with
          | none => exact .nothing
          | some i => exact .late (Nat.succ_le_succ (Nat.zero_le i))
        | false =>
          rw [hgone] at h
          rw [Provider.untilGone_of_there hgone]
          exact (ih (p.after [text]) h).later

end Embedder

/-! ## Requests of a run -/

/-- What the chunks of a project and then its components have for vectors, row by row. -/
def Store.vectors (s : Store) (project : String) : List (Option StoredVector) :=
  (s.chunks.toList.filter (·.project == project)).map (·.embedding) ++
    (s.components.toList.filter (·.project == project)).map (·.embedding)

namespace Sync

open Embedder

/-- The text by which a chunk is embedded. -/
def chunkText (c : SyncConfig) (chunk : Chunk) : String :=
  labelled (chunkLabel chunk) chunk.content c.embedChars

/-- The text by which a component is embedded, if it can be read and is not blank. -/
def componentText? (c : SyncConfig) (file : Component × Option String) : Option String :=
  (file.2.filter fun text => !Text.allBlank text.toList).map fun text =>
    labelled file.1.name text c.embedChars

/-- The texts that there are to be embedded: those of the chunks and then those of the components. -/
def Work.texts (w : Work) (c : SyncConfig) : List String :=
  (w.chunks c).map (chunkText c) ++ w.components.filterMap (componentText? c)

/-- A request for each row: for each chunk, and for each component whether it has a text or not. -/
def Work.requests (w : Work) (c : SyncConfig) : List (Option String) :=
  ((w.chunks c).map fun chunk => some (chunkText c chunk)) ++ w.components.map (componentText? c)

variable {c : SyncConfig} {key now : String} {w : Work} {s : Store}

theorem reduceOption_requests : (w.requests c).reduceOption = w.texts c := by
  rw [Work.requests, List.reduceOption_append, Work.texts]
  simp [List.reduceOption, List.filterMap_map]

theorem componentEmbedding_eq (e : Embedder) (file : Component × Option String) :
    Effect.componentEmbedding c e file = e.request (componentText? c file) := by
  unfold Effect.componentEmbedding componentText?
  cases file.2.filter fun text => !Text.allBlank text.toList <;> rfl

theorem afterChunks_eq (e : Embedder) (chunks : List Chunk) :
    afterChunks c e chunks = e.afterRequests (chunks.map fun chunk => some (chunkText c chunk)) := by
  rw [afterRequests, List.foldl_map]
  rfl

theorem map_embedding_chunkRows (e : Embedder) (chunks : List Chunk) :
    (chunkRows c key e chunks).map (·.embedding) =
      (e.serve (chunks.map fun chunk => some (chunkText c chunk))).map (·.map .ofEmbedding) := by
  induction chunks generalizing e with
  | nil => rfl
  | cons chunk chunks ih =>
    rw [chunkRows, List.map_cons, ih]
    rfl

theorem map_embedding_componentRows (e : Embedder) (files : List (Component × Option String)) :
    (componentRows c key e files).map (·.embedding) =
      (e.serve (files.map (componentText? c))).map (·.map .ofEmbedding) := by
  induction files generalizing e with
  | nil => rfl
  | cons file files ih =>
    rw [componentRows, List.map_cons, ih, List.map_cons, serve, List.map_cons, componentEmbedding_eq]

/-- The rows of a run are served one after another, chunks first. -/
theorem map_embedding_rows (key : String) (e : Embedder) :
    (chunkRows c key e (w.chunks c)).map (·.embedding) ++
        (componentRows c key (afterChunks c e (w.chunks c)) w.components).map (·.embedding) =
      (e.serve (w.requests c)).map (·.map .ofEmbedding) := by
  rw [map_embedding_chunkRows, map_embedding_componentRows, afterChunks_eq, Work.requests,
    serve_append, List.map_append]

/-! ## The provider after a run -/

theorem withComponents_embedder (files : List (Component × Option String)) (e : Effect) :
    (files.foldl (Effect.withComponent c key) e).embedder =
      e.embedder.afterRequests (files.map (componentText? c)) := by
  induction files generalizing e with
  | nil => rfl
  | cons file files ih =>
    rw [List.foldl_cons, ih, List.map_cons, afterRequests, List.foldl_cons, ← componentEmbedding_eq]
    rfl

theorem complete_embedder (e : Effect) :
    (e.complete c key w).embedder = e.embedder.afterRequests (w.requests c) := by
  have hpruned : ∀ e : Effect, (e.pruned c key w).embedder = e.embedder := by
    intro e
    unfold Effect.pruned
    split <;> rfl
  rw [Effect.complete, hpruned, withComponents_embedder, (withFiles_eq key w.files e).2,
    afterChunks_eq, Work.requests, afterRequests_append]
  rfl

theorem statement_embedder (embedder : Embedder) {α : Type} (f : Store → Except Failure α × Store) :
    Keeps (·.embedder = embedder) (statement f) := by
  intro p hp
  have hleft : (left ((statement f).run p)).embedder = p.embedder := by
    simp only [statement, EStateM.run]
    split <;> rfl
  exact hleft.trans hp

/-- An embedder that does not ask stays as it is. -/
theorem idle_kept {embedder : Embedder} (h : embedder.active = false) :
    Kept (·.embedder = embedder) where
  statement := statement_embedder embedder
  embed text := by
    rintro p rfl
    exact congrArg Prod.snd (request_idle h (some text))
  count _ := Keeps.modified fun _ hp => hp
  announce _ := fun _ hp => hp
  startAnnouncing := fun _ hp => hp

theorem runWork_provider (w : Work) (c : SyncConfig) (key now : String) (provider : Option Provider)
    (s : Store) : (runWork w c key now provider s).provider =
      (left ((body w c key now).run (begun s provider))).embedder.provider := by
  unfold runWork
  cases hbody : (body w c key now).run (begun s provider) with
  | ok a q =>
    have hrun := transaction_of_ok (p := Progress.start s provider) hbody
    rw [show transaction (body w c key now) (.start s provider) = _ from hrun]
    rfl
  | error failure q =>
    have hrun := transaction_of_error (p := Progress.start s provider) hbody
    rw [show transaction (body w c key now) (.start s provider) = _ from hrun]
    rfl

theorem runWork_provider_of_absent {p : Provider} (h : p.available = false) :
    (runWork w c key now (some p) s).provider = some p := by
  have hidle : (Embedder.start (some p)).active = false := h
  rw [runWork_provider]
  exact congrArg provider (body_keeps (idle_kept hidle) w now (begun s (some p)) rfl)

/-- A run that cannot take out the old rows asks for nothing. -/
theorem runWork_provider_of_refused {provider : Option Provider} {failure : Failure}
    (h : (s.clearProject key).1 = .error failure) :
    (runWork w c key now provider s).provider = provider := by
  rw [runWork_provider, body_refused h]
  rfl

/-- A run asks for nothing where the provider is not there or the old rows cannot be taken out. -/
theorem runWork_provider_of_idle {p : Provider}
    (h : p.available = false ∨ s.readOnly = true ∨ s.HeldByOthers key) :
    (runWork w c key now (some p) s).provider = some p := by
  rcases h with habsent | hw | hheld
  · exact runWork_provider_of_absent habsent
  · exact runWork_provider_of_refused (by rw [Store.clearProject, if_pos hw])
  · cases hw : s.readOnly with
    | true => exact runWork_provider_of_refused (by rw [Store.clearProject, if_pos hw])
    | false => exact runWork_provider_of_refused (by rw [Store.clearProject_held hw hheld])

/-- A run that has taken out the old rows makes its calls, whether it succeeds in the end or not. -/
theorem runWork_provider_of_cleared {p : Provider} (hw : s.readOnly = false)
    (hfree : ¬ s.HeldByOthers key) :
    (runWork w c key now (some p) s).provider = some (p.after (p.calls (w.texts c))) := by
  have hfinish : Keeps (·.embedder = ((Effect.start s key (some p)).complete c key w).embedder)
    (finish key now) := finish_keeps (statement_embedder _) now
  rw [runWork_provider, body_run hw hfree, hfinish _ rfl, complete_embedder]
  change ((⟨some p, p.available⟩ : Embedder).afterRequests (w.requests c)).provider = _
  rw [Provider.calls]
  cases p.available with
  | false => exact congrArg provider (afterRequests_idle rfl _)
  | true => rw [provider_after, reduceOption_requests, if_pos rfl]

/-! ## The vectors after a run -/

theorem vectors_finished (key now : String) (s : Store) (provider : Option Provider)
    (hpaths : (w.components.map (·.1.filePath)).Nodup) :
    (((Effect.start s key provider).complete c key w).finished key now).vectors key =
      ((start provider).serve (w.requests c)).map (·.map .ofEmbedding) := by
  rw [Store.vectors, finished_chunks provider now hpaths, finished_components provider now hpaths,
    filter_replaced fun _ => project_chunkRows, filter_replaced fun _ => project_componentRows,
    map_embedding_rows]

theorem length_serve (e : Embedder) (requests : List (Option String)) :
    (e.serve requests).length = requests.length := by
  induction requests generalizing e with
  | nil => rfl
  | cons r requests ih => rw [serve, List.length_cons, ih, List.length_cons]

theorem carries_vectors (p : Provider) {j : Nat} {kept : Option StoredVector}
    (h : (((start (some p)).serve (w.requests c)).map (·.map .ofEmbedding))[j]? = some kept) :
    p.Carries (w.texts c) (p.calls (w.texts c)).length (callOf (w.requests c) j) kept := by
  obtain ⟨embedding, hembedding, rfl⟩ := by simpa using h
  change ((⟨some p, p.available⟩ : Embedder).serve (w.requests c))[j]? = some embedding at hembedding
  rw [Provider.calls]
  cases havailable : p.available with
  | false =>
    rw [havailable, serve_idle rfl] at hembedding
    obtain rfl : embedding = none := by
      obtain ⟨_, hnone⟩ := List.getElem?_eq_some_iff.1 hembedding
      simpa using hnone.symm
    cases callOf (w.requests c) j with
    | none => exact .nothing
    | some i => exact .late (Nat.zero_le i)
  | true =>
    rw [havailable] at hembedding
    rw [if_pos rfl, ← reduceOption_requests]
    exact carries_serve p _ hembedding

theorem complete_embeddings (key : String) (s : Store) (provider : Option Provider) :
    ((Effect.start s key provider).complete c key w).stats.embeddings =
      ((((start provider).serve (w.requests c)).map (·.map StoredVector.ofEmbedding)).filter
        (·.isSome)).length := by
  rw [complete_stats, unpruned_stats, ← map_embedding_rows key, List.filter_append,
    List.length_append, List.filter_map, List.filter_map, List.length_map, List.length_map]
  rfl

/-- **A run asks until the provider is gone**, and each row has the vector of its own call. A provider
that is not there is not asked, and none is where a pattern is refused or the old rows cannot be taken
out. Any other run asks for the texts of the chunks and then for those of the components, one after
another, up to and including the first one to which the provider answers that it is gone. When the run
succeeds, the rows that stand for these chunks and components have a vector where the call for their own
text was made and answered with one, with the model of the provider, and as many are counted. -/
theorem run_asks_until_gone {β : Type} (project : Project β) (c : SyncConfig) (key now : String)
    (p : Provider) (s : Store) :
    let report := run project c key now (some p) s
    (p.available = false ∨ (∃ refusal, work project c = .error refusal) ∨ s.readOnly = true ∨
      s.HeldByOthers key → report.provider = some p) ∧
    ∀ w, work project c = .ok w →
      let texts := w.texts c
      let calls := p.calls texts
      (s.readOnly = false → ¬ s.HeldByOthers key → report.provider = some (p.after calls)) ∧
      ∀ stats, report.outcome = .ok stats →
        Replaced key (w.chunks c) (w.components.map (·.1)) s report.store ∧
        (report.store.vectors key).length = (w.requests c).length ∧
        (∀ j kept, (report.store.vectors key)[j]? = some kept →
          p.Carries texts calls.length (callOf (w.requests c) j) kept) ∧
        stats.embeddings = ((report.store.vectors key).filter (·.isSome)).length := by
  intro report
  refine ⟨fun hidle => ?_, fun w hwork => ?_⟩
  · cases hwork : work project c with
    | error refusal => simp only [report, run, hwork]
    | ok w =>
      simp only [report, run, hwork]
      refine runWork_provider_of_idle (hidle.imp_right fun h => h.resolve_left ?_)
      rintro ⟨refusal, hrefused⟩
      rw [hwork] at hrefused
      cases hrefused
  · refine ⟨fun hw hfree => ?_, fun stats h => ?_⟩
    · simp only [report, run, hwork]
      exact runWork_provider_of_cleared hw hfree
    · obtain ⟨w', hwork', hfree, -⟩ := run_ok h
      obtain rfl := Except.ok.inj (hwork.symm.trans hwork')
      have hpaths := work_components_nodup hwork
      have hreport : report = _ := run_free hwork hfree
      rw [hreport] at h ⊢
      cases h
      simp only [vectors_finished key now s (some p) hpaths]
      refine ⟨replaced_finished (some p) now hpaths, ?_, fun j kept => carries_vectors p,
        complete_embeddings key s (some p)⟩
      rw [List.length_map, length_serve]

namespace Sample

/-- A project with two files. -/
def letters : Project String :=
  ⟨⟨[(["a.txt"], .file "one\n"), (["b.txt"], .file "two\n")]⟩, [], some⟩

/-- A configuration that finds both, and the second also as a component. -/
def lettersConfig : SyncConfig :=
  { patterns := ["a.txt", "b.txt"], componentPatterns := [⟨"b.txt", .page⟩] }

/-- A provider that is gone after the first call. -/
def brief : Provider := .scripted "m" true [] (some [⟨1⟩]) (some 1)

end Sample

/-- Of three texts two are asked for; the first chunk has a vector and the other rows have none. -/
theorem run_asks_until_gone_sample :
    let report := run Sample.letters Sample.lettersConfig "shop" "now" (some Sample.brief) .created
    report.provider = some (Sample.brief.after ["a: one\n", "b: two\n"]) ∧
      report.store.vectors "shop" = [some ⟨[1, 0, 0, 0], "m"⟩, none, none] ∧
      ∃ stats, report.outcome = .ok stats ∧ stats.embeddings = 1 := by
  intro report
  obtain ⟨w, hwork, hrequests⟩ : ∃ w, work Sample.letters Sample.lettersConfig = .ok w ∧
      w.requests Sample.lettersConfig = [some "a: one\n", some "b: two\n", some "b: two\n"] :=
    ⟨_, rfl, by decide +kernel⟩
  have hfree : Free .created "shop" := free_of_no_symbols rfl rfl rfl
  have h : report.outcome = .ok _ := congrArg Report.outcome (run_free hwork hfree)
  have hvectors : report.store.vectors "shop" = [some ⟨[1, 0, 0, 0], "m"⟩, none, none] := by
    rw [congrArg Report.store (run_free hwork hfree),
      vectors_finished _ _ _ _ (work_components_nodup hwork), hrequests]
    decide +kernel
  obtain ⟨-, hrun⟩ := run_asks_until_gone Sample.letters Sample.lettersConfig "shop" "now"
    Sample.brief .created
  obtain ⟨hprovider, hsuccess⟩ := hrun w hwork
  have hcalls : Sample.brief.calls (w.texts Sample.lettersConfig) = ["a: one\n", "b: two\n"] := by
    rw [← reduceOption_requests, hrequests]
    decide +kernel
  rw [hcalls] at hprovider
  obtain ⟨-, -, -, hcount⟩ := hsuccess _ h
  exact ⟨hprovider rfl hfree.unheld, hvectors, _, h, hcount.trans (by rw [hvectors]; rfl)⟩

end Sync

end CodeIndex
