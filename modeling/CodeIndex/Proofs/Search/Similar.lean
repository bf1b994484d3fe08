import CodeIndex.Proofs.Search.Order
import CodeIndex.Proofs.Sync.History
import CodeIndex.Proofs.Sync.Isolation
import CodeIndex.Proofs.Sync.Rows
import CodeIndex.Search.Semantic

/-!
Search by meaning in terms of the vectors that were put in.

A vector is kept as its bytes, and nothing of it is lost: the bytes give back every bit of every number, and
as many numbers (`Vector32.ofBytes_toBytes`). So the search ranks the rows of a project by the cosines with
the vectors that they were made with, in the total order of doubles: of two cosines that are no numbers one
may stand before all numbers and the other one after them (`totalKey_nan`).

* `Store.Given` says what the chunks and components of a project were made from: what is put in comes to
  these (`Given.addChunk`, `Given.putComponent`), and after every history there are such
  (`made_of_history`);
* `similar_ranks_given`: the results are the first of one ranking of the rows whose cosine is defined. Rows
  with a vector of another length, or with none, are not in it, so they take up no place under the limit;
* `tied_chunks_by_file`: chunks with one score stand by file, not in the order in which they were put in.
-/
namespace CodeIndex

/-! ## Vectors as bytes -/

theorem or_byte_shiftLeft {a n : Nat} (h : a < 2 ^ n) (hn : n ≤ 24) (y : Nat) :
    a ||| (y % 2 ^ 8) <<< n % 2 ^ 32 = a + y % 2 ^ 8 * 2 ^ n := by
  have hword : (y % 2 ^ 8) <<< n < 2 ^ 32 := by
    rw [Nat.shiftLeft_eq]
    calc y % 2 ^ 8 * 2 ^ n < 2 ^ 8 * 2 ^ n :=
          Nat.mul_lt_mul_of_pos_right (Nat.mod_lt _ (Nat.two_pow_pos 8)) (Nat.two_pow_pos n)
      _ ≤ 2 ^ 8 * 2 ^ 24 := Nat.mul_le_mul_left _ (Nat.pow_le_pow_right (by decide) hn)
      _ = 2 ^ 32 := rfl
  rw [Nat.mod_eq_of_lt hword, Nat.or_comm, ← Nat.shiftLeft_add_eq_or_of_lt h, Nat.shiftLeft_eq,
    Nat.add_comm]

theorem Single.ofBytes_toBytes (x : Single) :
    ofBytes x.bits.toUInt8 (x.bits >>> 8).toUInt8 (x.bits >>> 16).toUInt8 (x.bits >>> 24).toUInt8 = x := by
  obtain ⟨bits⟩ := x
  refine congrArg Single.mk (UInt32.toNat_inj.1 ?_)
  have hbits := bits.toNat_lt
  simp only [UInt32.toNat_or, UInt32.toNat_shiftLeft, UInt32.toNat_shiftRight, UInt32.toNat_toUInt8,
    UInt8.toNat_toUInt32, UInt32.reduceToNat, Nat.reduceMod]
  rw [or_byte_shiftLeft (n := 8) (by omega) (by decide),
    or_byte_shiftLeft (n := 16) (by omega) (by decide),
    or_byte_shiftLeft (n := 24) (by omega) (by decide), Nat.shiftRight_eq_div_pow,
    Nat.shiftRight_eq_div_pow, Nat.shiftRight_eq_div_pow]
  omega

theorem Vector32.ofBytes_toBytes (v : Vector32) : ofBytes v.toBytes = v := by
  induction v with
  | nil => rfl
  | cons x v ih =>
    change Single.ofBytes _ _ _ _ :: ofBytes (toBytes v) = x :: v
    rw [Single.ofBytes_toBytes, ih]

@[simp] theorem StoredVector.vector_ofEmbedding (e : Embedding) : (ofEmbedding e).vector = e.vector :=
  Vector32.ofBytes_toBytes e.vector

/-! ## What the rows of a project were made from -/

/-- The row of a component. -/
def ComponentRow.ofComponent (project : String) (c : Component) (embedding : Option Embedding) :
    ComponentRow := ⟨project, c, embedding.map StoredVector.ofEmbedding⟩

namespace Store

/-- The rows of a project are those of these chunks and components with their embeddings, in the order of
their numbers. -/
structure Given (s : Store) (project : String) (chunks : List (Chunk × Option Embedding))
    (components : List (Component × Option Embedding)) : Prop where
  chunks : s.chunks.toList.filter (·.project == project) =
    chunks.map fun x => .ofChunk project x.1 x.2
  components : s.components.toList.filter (·.project == project) =
    components.map fun x => .ofComponent project x.1 x.2

/-- The rows of every project are those of some chunks and components. -/
def Made (s : Store) : Prop := ∀ project, ∃ chunks components, s.Given project chunks components

variable {s s' : Store} {project : String} {chunks : List (Chunk × Option Embedding)}
  {components : List (Component × Option Embedding)}

theorem given_created (project : String) : created.Given project [] [] := ⟨rfl, rfl⟩

theorem Given.of_rowsOf (h : s.Given project chunks components)
    (hrows : s'.rowsOf project = s.rowsOf project) : s'.Given project chunks components := by
  have hchunks := congrArg (fun r => r.chunks.map (·.row)) hrows
  have hcomponents := congrArg (fun r => r.components.map (·.row)) hrows
  refine ⟨Eq.trans ?_ h.chunks, Eq.trans ?_ h.components⟩
  · rw [Table.toList, Table.toList, List.filter_map, List.filter_map]
    exact hchunks
  · rw [Table.toList, Table.toList, List.filter_map, List.filter_map]
    exact hcomponents

theorem Given.addChunk (h : s.Given project chunks components) (c : Chunk)
    (embedding : Option Embedding) :
    (s.addChunk project c embedding).Given project (chunks ++ [(c, embedding)]) components := by
  refine ⟨?_, h.components⟩
  have hnew : [ChunkRow.ofChunk project c embedding].filter (·.project == project) =
      [.ofChunk project c embedding] := List.filter_cons_of_pos (beq_self_eq_true _)
  rw [Store.addChunk, Table.toList_insert, List.filter_append, h.chunks, hnew, List.map_append]
  rfl

/-- A component that is put in comes last, and the one for the same file goes. -/
theorem Given.putComponent (h : s.Given project chunks components) (c : Component)
    (embedding : Option Embedding) :
    (s.putComponent project c embedding).Given project chunks
      (components.filter (fun x => x.1.filePath != c.filePath) ++ [(c, embedding)]) := by
  refine ⟨h.chunks, ?_⟩
  have hnew : [ComponentRow.ofComponent project c embedding].filter (·.project == project) =
      [.ofComponent project c embedding] := List.filter_cons_of_pos (beq_self_eq_true _)
  have hkept : ∀ x : Component × Option Embedding,
      (!(ComponentRow.ofComponent project x.1 x.2).isFor project c.filePath) =
        (x.1.filePath != c.filePath) := by
    intro x
    simp only [ComponentRow.isFor, ComponentRow.ofComponent, beq_self_eq_true, Bool.true_and]
    rfl
  rw [Store.putComponent, Table.toList_insert, Table.toList_keep, List.filter_append, List.filter_comm,
    h.components, List.filter_map, List.map_append]
  refine congrArg₂ _ (congrArg _ (List.filter_congr fun x _ => hkept x)) hnew

theorem given_cleared (s : Store) (project : String) : (s.cleared project).Given project [] [] := by
  refine ⟨?_, ?_⟩ <;> simp [cleared]

theorem Made.of_tables (h : s.Made) (hchunks : s'.chunks = s.chunks)
    (hcomponents : s'.components = s.components) : s'.Made := fun project =>
  let ⟨chunks, components, hgiven⟩ := h project
  ⟨chunks, components, by rw [hchunks]; exact hgiven.chunks,
    by rw [hcomponents]; exact hgiven.components⟩

/-- A change on behalf of one project has to be looked at for this project only. -/
theorem Made.of_project (h : s.Made) (key : String)
    (hothers : ∀ other, key ≠ other → s'.rowsOf other = s.rowsOf other)
    (hown : ∀ chunks components, s.Given key chunks components →
      ∃ chunks' components', s'.Given key chunks' components') : s'.Made := by
  intro project
  obtain ⟨chunks, components, hgiven⟩ := h project
  by_cases hkey : key = project
  · subst hkey
    exact hown chunks components hgiven
  · exact ⟨chunks, components, hgiven.of_rowsOf (hothers project hkey)⟩

theorem Made.settle (h : s.Made) (op : Operation) : (op.settle s).2.Made := by
  refine op.settle_induction h (fun _ => ?_) (fun _ _ => h.of_tables rfl rfl) fun i _ => by
    cases i <;> exact h.of_tables rfl rfl
  cases op with
  | insertChunk key c embedding =>
    exact h.of_project key (fun _ hkey => rowsOf_addChunk hkey s c embedding) fun _ _ hgiven =>
      ⟨_, _, hgiven.addChunk c embedding⟩
  | insertComponent key c embedding =>
    exact h.of_project key (fun _ hkey => rowsOf_putComponent hkey s c embedding) fun _ _ hgiven =>
      ⟨_, _, hgiven.putComponent c embedding⟩
  | clearProject key =>
    exact h.of_project key (fun _ hkey => rowsOf_cleared hkey s) fun _ _ _ =>
      ⟨_, _, given_cleared s key⟩
  | _ => exact h.of_tables rfl rfl

end Store

namespace Sync

variable {s : Store} {provider : Option Provider}

theorem exists_chunkRows (c : SyncConfig) (key : String) (e : Embedder) (chunks : List Chunk) :
    ∃ given : List (Chunk × Option Embedding),
      chunkRows c key e chunks = given.map fun x => .ofChunk key x.1 x.2 := by
  induction chunks generalizing e with
  | nil => exact ⟨[], rfl⟩
  | cons chunk chunks ih =>
    rw [chunkRows]
    obtain ⟨given, hgiven⟩ := ih _
    exact ⟨(chunk, _) :: given, congrArg (_ :: ·) hgiven⟩

theorem exists_componentRows (c : SyncConfig) (key : String) (e : Embedder)
    (files : List (Component × Option String)) :
    ∃ given : List (Component × Option Embedding),
      componentRows c key e files = given.map fun x => .ofComponent key x.1 x.2 := by
  induction files generalizing e with
  | nil => exact ⟨[], rfl⟩
  | cons file files ih =>
    rw [componentRows]
    obtain ⟨given, hgiven⟩ := ih _
    exact ⟨(file.1, _) :: given, congrArg (_ :: ·) hgiven⟩

theorem made_run {β : Type} (h : s.Made) (project : Project β) (c : SyncConfig) (key now : String)
    (provider : Option Provider) : (run project c key now provider s).store.Made := by
  rcases run_cases project c s key with ⟨failure, hblocked⟩ | ⟨w, hwork, hfree⟩
  · rw [(run_blocked hblocked).2]
    exact h
  · have hpaths := work_components_nodup hwork
    rw [run_free hwork hfree]
    refine h.of_project key (fun other hkey => ?_) fun _ _ _ => ?_
    · exact (Store.rowsOf_addEvent hkey _ _ _ _).trans
        ((Effect.rowsOf_complete hkey w _).trans (Store.rowsOf_cleared hkey s))
    · obtain ⟨chunks, hchunks⟩ := exists_chunkRows c key (.start provider) (w.chunks c)
      obtain ⟨components, hcomponents⟩ := exists_componentRows c key
        (afterChunks c (.start provider) (w.chunks c)) w.components
      refine ⟨chunks, components, ?_, ?_⟩
      · rw [finished_chunks provider now hpaths, filter_replaced fun _ => project_chunkRows, hchunks]
      · rw [finished_components provider now hpaths, filter_replaced fun _ => project_componentRows,
          hcomponents]

end Sync

/-- After every history the rows of every project are those of some chunks and components. -/
theorem made_of_history {s : Store} {indexed : List (Numbered ChunkRow)} (h : History s indexed) :
    s.Made := by
  induction h with
  | created => exact fun project => ⟨[], [], Store.given_created project⟩
  | operation op _ ih => exact ih.settle op
  | run project c key now provider _ ih => exact Sync.made_run ih project c key now provider
  | indexDropped i _ ih => cases i <;> exact ih.of_tables rfl rfl
  | reopened readOnly _ ih => cases readOnly <;> exact ih.of_tables rfl rfl

/-! ## The total order of doubles -/

theorem totalKey_inj {a b : UInt64} : totalKey a = totalKey b ↔ a = b := by
  refine ⟨fun h => UInt64.toNat_inj.1 ?_, congrArg totalKey⟩
  rw [totalKey, totalKey] at h
  have ha := a.toNat_lt
  have hb := b.toNat_lt
  split at h <;> split at h <;> omega

/-- What is no number stands after all numbers, infinity included, or before them if its sign is set. -/
theorem totalKey_nan (nan : NanBits) {bits : UInt64} (h : bits.toNat % 2 ^ 63 ≤ 2 ^ 63 - 2 ^ 52) :
    if nan.bits.toNat < 2 ^ 63 then totalKey bits < totalKey nan.bits
    else totalKey nan.bits < totalKey bits := by
  have hnan := nan.nan
  have hlt := bits.toNat_lt
  have hsign : Nat.pow 2 63 = 2 ^ 63 := rfl
  have hexponent : Nat.pow 2 52 = 2 ^ 52 := rfl
  rw [hsign, hexponent] at hnan
  rw [totalKey, totalKey, hsign]
  split <;> split <;> omega

namespace Store

/-! ## The ranking -/

section Ranking

variable {s : Store} {project : String} {chunks : List (Chunk × Option Embedding)}
  {components : List (Component × Option Embedding)}

/-- The hit for what has an embedding whose cosine with the query is defined. The cosine is the score, and its
bits, in the total order of doubles, are the place in the ranking. -/
def scoredGiven? (nan : NanRule) (query : Vector32) (embedding : Option Embedding)
    (hit : Float → Hit Float) : Option Scored :=
  embedding.bind fun e => (Vector32.cosine? query e.vector).map fun score =>
    ⟨totalKey ((nan query e.vector).ofFloat score), hit score⟩

theorem scored?_ofEmbedding (nan : NanRule) (query : Vector32) (embedding : Option Embedding)
    (hit : Float → Hit Float) :
    scored? nan query (embedding.map StoredVector.ofEmbedding) hit =
      scoredGiven? nan query embedding hit := by
  cases embedding with
  | none => rfl
  | some e =>
    rw [scored?, Option.map_some, Option.bind_some, StoredVector.vector_ofEmbedding]
    rfl

/-- The hit for a chunk with its embedding. -/
def scoredChunk? (nan : NanRule) (project : String) (query : Vector32) (x : Chunk × Option Embedding) :
    Option Scored :=
  scoredGiven? nan query x.2 fun score =>
    (ChunkRow.ofChunk project x.1 x.2).hit (x.1.content.toList.take similarPreviewChars) score .semantic

/-- The hit for a component with its embedding. -/
def scoredComponent? (nan : NanRule) (project : String) (query : Vector32)
    (x : Component × Option Embedding) : Option Scored :=
  scoredGiven? nan query x.2 fun score =>
    (ComponentRow.ofComponent project x.1 x.2).hit score .semantic

/-- The hits for chunks with embeddings: those whose cosine with the query is defined, by file, and those of
one file in the order in which they are given. The search asks for no order; by file is how the rows of a
project stand in the index of the table by which they are found. -/
def hitsOfChunks (nan : NanRule) (project : String) (query : Vector32)
    (chunks : List (Chunk × Option Embedding)) : List Scored :=
  (chunks.mergeSort fun x y => x.1.filePath ≤ y.1.filePath).filterMap (scoredChunk? nan project query)

/-- The hits for components with embeddings, in the same way. -/
def hitsOfComponents (nan : NanRule) (project : String) (query : Vector32)
    (components : List (Component × Option Embedding)) : List Scored :=
  (components.mergeSort fun x y => x.1.filePath ≤ y.1.filePath).filterMap
    (scoredComponent? nan project query)

theorem Given.similarChunks (h : s.Given project chunks components) (nan : NanRule) (query : Vector32) :
    s.similarChunks nan project query = hitsOfChunks nan project query chunks := by
  have hrows : s.chunksByFile project =
      (chunks.mergeSort fun x y => x.1.filePath ≤ y.1.filePath).map
        fun x => .ofChunk project x.1 x.2 := by
    rw [chunksByFile, h.chunks]
    exact Eq.symm <| List.map_mergeSort fun _ _ _ _ => rfl
  rw [Store.similarChunks, hrows, List.filterMap_map]
  exact List.filterMap_congr fun x _ => scored?_ofEmbedding nan query x.2 _

theorem Given.similarComponents (h : s.Given project chunks components) (nan : NanRule)
    (query : Vector32) :
    s.similarComponents nan project query = hitsOfComponents nan project query components := by
  have hrows : s.componentsByFile project =
      (components.mergeSort fun x y => x.1.filePath ≤ y.1.filePath).map
        fun x => .ofComponent project x.1 x.2 := by
    rw [componentsByFile, h.components]
    exact Eq.symm <| List.map_mergeSort fun _ _ _ _ => rfl
  rw [Store.similarComponents, hrows, List.filterMap_map]
  exact List.filterMap_congr fun x _ => scored?_ofEmbedding nan query x.2 _

/-- What is kept with the rows of a project gives back the vectors that were put in, number by number. -/
theorem Given.vectors (h : s.Given project chunks components) :
    (s.chunks.toList.filter (·.project == project)).map (fun r => r.embedding.map (·.vector)) =
        chunks.map (fun x => x.2.map (·.vector)) ∧
      (s.components.toList.filter (·.project == project)).map (fun r => r.embedding.map (·.vector)) =
        components.map fun x => x.2.map (·.vector) := by
  have hkept : ∀ embedding : Option Embedding,
      (embedding.map StoredVector.ofEmbedding).map (·.vector) = embedding.map (·.vector) := by
    intro embedding
    rw [Option.map_map]
    exact Option.map_congr fun e _ => StoredVector.vector_ofEmbedding e
  rw [h.chunks, h.components, List.map_map, List.map_map]
  exact ⟨List.map_congr_left fun x _ => hkept x.2, List.map_congr_left fun x _ => hkept x.2⟩

/-- A ranking of hits: the score that is last in the total order first, and hits with one score as they
stood. -/
structure IsRanking (hits ranking : List Scored) : Prop where
  perm : ranking.Perm hits
  ordered : ranking.Pairwise fun a b => b.key ≤ a.key
  ties : ∀ k, ranking.filter (fun hit => hit.key = k) = hits.filter fun hit => hit.key = k

theorem isRanking_ranked (hits : List Scored) : IsRanking hits (Scored.ranked hits) := by
  have htrans : ∀ a b c : Scored, decide (b.key ≤ a.key) = true → decide (c.key ≤ b.key) = true →
      decide (c.key ≤ a.key) = true := by
    intro a b c hab hbc
    exact decide_eq_true ((of_decide_eq_true hbc).trans (of_decide_eq_true hab))
  have htotal : ∀ a b : Scored, (decide (b.key ≤ a.key) || decide (a.key ≤ b.key)) = true := by
    intro a b
    rw [Bool.or_eq_true, decide_eq_true_iff, decide_eq_true_iff]
    exact le_total _ _
  refine ⟨List.mergeSort_perm _ _, ?_, fun k => ?_⟩
  · exact (List.pairwise_mergeSort htrans htotal hits).imp of_decide_eq_true
  · refine filter_mergeSort htrans htotal fun a _ b _ ha hb => ?_
    rw [of_decide_eq_true ha, of_decide_eq_true hb]
    exact decide_eq_true (le_refl k)

/-- There is one ranking of hits only, and hits that are in order are their own. -/
theorem IsRanking.eq_of_ordered {hits ranking : List Scored} (h : IsRanking hits ranking)
    (hordered : hits.Pairwise fun a b => b.key ≤ a.key) : ranking = hits :=
  eq_of_filter_key_eq h.ordered hordered h.ties

/-- **The first of one ranking.** After every history the rows of a project are those of some chunks and
components with embeddings. What is put in comes to these as it is, and the rows give back the vectors. The
results of a search are the first, up to the limit, of a ranking of the hits for just those whose vector
has a cosine with the query, chunks before components and each of them by file, and this cosine is the
score. So it is with every rule for the bits of a cosine that is no number. -/
theorem similar_ranks_given {indexed : List (Numbered ChunkRow)} (h : History s indexed)
    (project : String) :
    (∃ chunks components, s.Given project chunks components) ∧
    ∀ chunks components, s.Given project chunks components →
      (∀ c embedding id s', s.insertChunk project c embedding = .ok (id, s') →
        s'.Given project (chunks ++ [(c, embedding)]) components) ∧
      (∀ c embedding s', s.insertComponent project c embedding = .ok s' →
        s'.Given project chunks
          (components.filter (fun x => x.1.filePath != c.filePath) ++ [(c, embedding)])) ∧
      ((s.chunks.toList.filter (·.project == project)).map (fun r => r.embedding.map (·.vector)) =
          chunks.map (fun x => x.2.map (·.vector)) ∧
        (s.components.toList.filter (·.project == project)).map (fun r => r.embedding.map (·.vector)) =
          components.map fun x => x.2.map (·.vector)) ∧
      ∀ nan query, ∃ ranking,
        IsRanking
          (hitsOfChunks nan project query chunks ++ hitsOfComponents nan project query components)
          ranking ∧
        ∀ limit, s.similar nan project query limit = (ranking.take limit).map (·.hit) := by
  refine ⟨made_of_history h project, fun chunks components hgiven => ⟨?_, ?_, hgiven.vectors, ?_⟩⟩
  · intro c embedding id s' hs
    cases writing_ok hs
    exact hgiven.addChunk c embedding
  · intro c embedding s' hs
    cases writing_ok hs
    exact hgiven.putComponent c embedding
  · intro nan query
    refine ⟨_, isRanking_ranked _, fun limit => ?_⟩
    rw [similar, hgiven.similarChunks, hgiven.similarComponents]

namespace Sample

/-- A chunk that declares a class. -/
def vectorChunk (filePath name : String) : Chunk :=
  ⟨filePath, 0, "class " ++ name, .typescript, .classType, some name, none, 1, 1, [name]⟩

/-- An embedding of one number, one. -/
def oneNumber : Embedding := ⟨[⟨0x3f800000⟩], "m"⟩

/-- An embedding of two numbers, three and four. -/
def twoNumbers : Embedding := ⟨[⟨0x40400000⟩, ⟨0x40800000⟩], "m"⟩

/-- The same numbers the other way around. -/
def turned : Embedding := ⟨[⟨0x40800000⟩, ⟨0x40400000⟩], "m"⟩

/-- An index with chunks and a component whose vectors have different lengths. -/
def vectorStore : Store :=
  Store.created.addChunk "shop" (vectorChunk "a.ts" "A") (some oneNumber)
    |>.addChunk "shop" (vectorChunk "a.ts" "B") none
    |>.putComponent "shop" ⟨"A", .component, "a.ts"⟩ (some turned)
    |>.addChunk "shop" (vectorChunk "a.ts" "C") (some twoNumbers)

theorem history_vectorStore : History vectorStore [] :=
  .operation (.insertChunk "shop" (vectorChunk "a.ts" "C") (some twoNumbers)) <|
    .operation (.insertComponent "shop" ⟨"A", .component, "a.ts"⟩ (some turned)) <|
      .operation (.insertChunk "shop" (vectorChunk "a.ts" "B") none) <|
        .operation (.insertChunk "shop" (vectorChunk "a.ts" "A") (some oneNumber)) .created

/-- The chunks it has been given. -/
def vectorChunks : List (Chunk × Option Embedding) :=
  [(vectorChunk "a.ts" "A", some oneNumber), (vectorChunk "a.ts" "B", none),
    (vectorChunk "a.ts" "C", some twoNumbers)]

/-- The component it has been given. -/
def vectorComponents : List (Component × Option Embedding) :=
  [(⟨"A", .component, "a.ts"⟩, some turned)]

theorem given_vectorStore : vectorStore.Given "shop" vectorChunks vectorComponents :=
  ⟨by decide, by decide⟩

end Sample

/-- Of the chunks the last one alone has two numbers, as the component has. A query of two numbers finds these
two under a limit of two; their cosines with it are 1 and 24/25, and the other chunks have none. -/
theorem similar_ranks_given_mixed :
    (Sample.vectorChunks.map fun x => x.2.bind fun e =>
      Vector32.cosine? Sample.twoNumbers.vector e.vector) = [none, none, some 1.0] ∧
    ((Sample.vectorStore.similar .made "shop" Sample.twoNumbers.vector 2).map fun hit =>
      (hit.name, hit.what, hit.score)) =
        [(some "C", .codeChunk, 1.0), (some "A", .component, 0.96)] := by
  obtain ⟨-, -, -, hranks⟩ := (similar_ranks_given Sample.history_vectorStore "shop").2 _ _
    Sample.given_vectorStore
  obtain ⟨ranking, hranking, hsimilar⟩ := hranks .made Sample.twoNumbers.vector
  -- all rows are of one file
  rw [hitsOfChunks, List.mergeSort_of_pairwise (by decide), hitsOfComponents,
    List.mergeSort_of_pairwise (by decide)] at hranking
  rw [hsimilar, hranking.eq_of_ordered (by decide +kernel)]
  exact ⟨by decide +kernel, by decide +kernel⟩

namespace Sample

/-- An index with two chunks that have one vector, of which the one that was put in last is of the first
file. -/
def tiedStore : Store :=
  Store.created.addChunk "shop" (vectorChunk "b.ts" "B") (some oneNumber)
    |>.addChunk "shop" (vectorChunk "a.ts" "A") (some oneNumber)

theorem history_tiedStore : History tiedStore [] :=
  .operation (.insertChunk "shop" (vectorChunk "a.ts" "A") (some oneNumber)) <|
    .operation (.insertChunk "shop" (vectorChunk "b.ts" "B") (some oneNumber)) .created

/-- Its chunks in the order in which they were put in. -/
def tiedChunks : List (Chunk × Option Embedding) :=
  [(vectorChunk "b.ts" "B", some oneNumber), (vectorChunk "a.ts" "A", some oneNumber)]

theorem given_tiedStore : tiedStore.Given "shop" tiedChunks [] := ⟨by decide, by decide⟩

end Sample

/-- **Chunks with one score stand by file**, and not in the order of their rows: the chunk that was put in
last comes first. -/
theorem tied_chunks_by_file :
    ¬ ∀ (s : Store) (indexed : List (Numbered ChunkRow)), History s indexed →
      ∀ (project : String) (chunks : List (Chunk × Option Embedding))
        (components : List (Component × Option Embedding)), s.Given project chunks components →
      ∀ (nan : NanRule) (query : Vector32), ∃ ranking,
        IsRanking (chunks.filterMap (scoredChunk? nan project query) ++
          components.filterMap (scoredComponent? nan project query)) ranking ∧
        ∀ limit, s.similar nan project query limit = (ranking.take limit).map (·.hit) := by
  intro hall
  obtain ⟨ranking, hranking, hsimilar⟩ := hall _ _ Sample.history_tiedStore "shop" _ _
    Sample.given_tiedStore .made Sample.oneNumber.vector
  -- by file the chunks stand the other way around
  have hchunks : hitsOfChunks .made "shop" Sample.oneNumber.vector Sample.tiedChunks =
      Sample.tiedChunks.reverse.filterMap (scoredChunk? .made "shop" Sample.oneNumber.vector) := by
    rw [hitsOfChunks, Sample.tiedChunks, mergeSort_pair, if_neg (by decide +kernel)]
    rfl
  have hfound := congrArg (List.map (·.filePath)) (hsimilar 2)
  rw [hranking.eq_of_ordered (by decide +kernel), similar, Sample.given_tiedStore.similarChunks,
    Sample.given_tiedStore.similarComponents, hchunks,
    (isRanking_ranked _).eq_of_ordered (by decide +kernel)] at hfound
  exact absurd hfound (by decide +kernel)

end Ranking

end Store

end CodeIndex
