import ShaderMicrocode.Proofs.Words
/-!
# Shown fetches

The fetches that a translation shows to its backend are those of the words that the program reaches, each vertex fetch
resolved against the full fetch before it. Without an abort all of them are shown, and in any case a beginning.
-/
namespace ShaderMicrocode

open ControlFlow Fetch

/-! Fetches of visited words. -/

/-- The vertex fetch of a visited word, given the full fetch before it. -/
def Visit.vertexFetch? (v : Visit) (last : Option VertexWord) : Option VertexFetch :=
  if v.isFetch ∧ opcodeBits v.word = Opcode.vertexFetch.code then
    ((VertexWord.decode v.word).resolve last v.address).toOption
  else none

def vertexFetchesOf (last : Option VertexWord) (vs : List Visit) : List VertexFetch :=
  collect (fun last v => (v.vertexFetch? last).toList) last vs

private theorem vertexFetchesOf_cons (last : Option VertexWord) (v : Visit) (vs : List Visit) :
    vertexFetchesOf last (v :: vs) = (v.vertexFetch? last).toList ++ vertexFetchesOf (v.remember last) vs := rfl

private theorem Visit.remember_of_not_isFetch {v : Visit} (h : ¬v.isFetch = true) (last : Option VertexWord) :
    v.remember last = last := if_neg fun hv => h hv.1

theorem rememberAll_filter (last : Option VertexWord) (vs : List Visit) :
    rememberAll last (vs.filter Visit.isFetch) = rememberAll last vs := by
  rw [rememberAll, List.foldl_filter]
  congr 1
  funext last v
  by_cases h : v.isFetch = true
  · rw [if_pos h]
  · rw [if_neg h, v.remember_of_not_isFetch h]

theorem vertexFetchesOf_filter (last : Option VertexWord) (vs : List Visit) :
    vertexFetchesOf last (vs.filter Visit.isFetch) = vertexFetchesOf last vs := by
  induction vs generalizing last with
  | nil => rfl
  | cons v vs ih =>
    by_cases h : v.isFetch = true
    · rw [List.filter_cons_of_pos h, vertexFetchesOf_cons, vertexFetchesOf_cons, ih]
    · have hnone : v.vertexFetch? last = none := if_neg fun hv => h hv.1
      rw [List.filter_cons_of_neg h, vertexFetchesOf_cons, hnone, v.remember_of_not_isFetch h, ih]
      rfl

theorem length_vertexFetchesOf_le (last : Option VertexWord) (vs : List Visit) :
    (vertexFetchesOf last vs).length ≤ vs.length := by
  have hone (last : Option VertexWord) (v : Visit) : (v.vertexFetch? last).toList.length ≤ 1 := by
    cases v.vertexFetch? last <;> simp
  have hlength := length_collect_le last hone vs
  rwa [Nat.one_mul] at hlength

/-- The texture fetch of a visited word. -/
def Visit.textureFetch? (v : Visit) : Option TextureFetch :=
  if v.isFetch ∧ opcodeBits v.word ≠ Opcode.vertexFetch.code then
    ((TextureWord.decode v.word).resolve v.address).toOption
  else none

/-! What is told of fetches. -/

def Notice.vertexFetch? : Notice → Option VertexFetch
  | event (.vertexFetch f) => some f
  | _ => none

def Notice.textureFetch? : Notice → Option TextureFetch
  | event (.textureFetch f) => some f
  | _ => none

private theorem Notice.seesWordsOnly_vertexFetch? : SeesWordsOnly vertexFetch? := by
  intro n hn
  cases n with
  | event e => cases e <;> first | rfl | cases hn
  | _ => rfl

private theorem Notice.seesWordsOnly_textureFetch? : SeesWordsOnly textureFetch? := by
  intro n hn
  cases n with
  | event e => cases e <;> first | rfl | cases hn
  | _ => rfl

private theorem filterMap_halfNotices {β : Type} {g : Notice → Option β} (herror : ∀ d, g (.error d) = none)
    (halu : ∀ i, g (.event (.alu i)) = none) (halves : List (Except DecodeError Alu.Instruction)) :
    (halfNotices halves).filterMap g = [] := by
  rw [List.filterMap_eq_nil_iff]
  intro n hn
  rcases mem_halfNotices hn with ⟨e, -, rfl⟩ | ⟨i, -, rfl⟩
  · exact herror _
  · exact halu i

private theorem Visit.vertexFetch?_told (stage : Stage) (last : Option VertexWord) (v : Visit) :
    (v.told stage last).filterMap Notice.vertexFetch? = (v.vertexFetch? last).toList := by
  by_cases hfetch : v.isFetch = true
  · by_cases hcode : opcodeBits v.word = Opcode.vertexFetch.code
    · rw [v.told_of_vertexFetch stage last hfetch hcode, vertexFetch?, if_pos ⟨hfetch, hcode⟩]
      cases (VertexWord.decode v.word).resolve last v.address <;> rfl
    · rw [v.told_of_textureFetch stage last hfetch hcode, vertexFetch?, if_neg fun h => hcode h.2]
      cases (TextureWord.decode v.word).resolve v.address <;> rfl
  · rw [v.told_of_alu stage last hfetch, vertexFetch?, if_neg fun h => hfetch h.1]
    exact filterMap_halfNotices (fun _ => rfl) (fun _ => rfl) _

private theorem Visit.textureFetch?_told (stage : Stage) (last : Option VertexWord) (v : Visit) :
    (v.told stage last).filterMap Notice.textureFetch? = v.textureFetch?.toList := by
  by_cases hfetch : v.isFetch = true
  · by_cases hcode : opcodeBits v.word = Opcode.vertexFetch.code
    · rw [v.told_of_vertexFetch stage last hfetch hcode, textureFetch?, if_neg fun h => h.2 hcode]
      cases (VertexWord.decode v.word).resolve last v.address <;> rfl
    · rw [v.told_of_textureFetch stage last hfetch hcode, textureFetch?, if_pos ⟨hfetch, hcode⟩]
      cases (TextureWord.decode v.word).resolve v.address <;> rfl
  · rw [v.told_of_alu stage last hfetch, textureFetch?, if_neg fun h => hfetch h.1]
    exact filterMap_halfNotices (fun _ => rfl) (fun _ => rfl) _

namespace Shader

variable {σ : Type}

def shownVertexFetches (shader : Shader) (b : Backend σ) (settings : TranslatorSettings) (s : σ) :
    List VertexFetch :=
  (shader.notices b settings s).filterMap Notice.vertexFetch?

def shownTextureFetches (shader : Shader) (b : Backend σ) (settings : TranslatorSettings) (s : σ) :
    List TextureFetch :=
  (shader.notices b settings s).filterMap Notice.textureFetch?

variable (shader : Shader) {b : Backend σ} {settings : TranslatorSettings} {s : σ}

theorem visitsSeen_vertexFetch? :
    shader.visitsSeen Notice.vertexFetch? =
      vertexFetchesOf none ((Program.read shader.words).visits shader.words) := by
  unfold visitsSeen Schedule.seenOf vertexFetchesOf
  congr 1
  funext last v
  exact v.vertexFetch?_told shader.stage last

theorem visitsSeen_textureFetch? :
    shader.visitsSeen Notice.textureFetch? =
      ((Program.read shader.words).visits shader.words).filterMap Visit.textureFetch? := by
  rw [visitsSeen, Schedule.seenOf, ← collect_toList none]
  congr 1
  funext last v
  exact v.textureFetch?_told shader.stage last

theorem shownVertexFetches_prefix (b : Backend σ) (settings : TranslatorSettings) (s : σ) :
    shader.shownVertexFetches b settings s <+:
      vertexFetchesOf none ((Program.read shader.words).visits shader.words) := by
  rw [← visitsSeen_vertexFetch?]
  exact shader.seen_prefix b settings s Notice.seesWordsOnly_vertexFetch?

theorem shownTextureFetches_prefix (b : Backend σ) (settings : TranslatorSettings) (s : σ) :
    shader.shownTextureFetches b settings s <+:
      ((Program.read shader.words).visits shader.words).filterMap Visit.textureFetch? := by
  rw [← visitsSeen_textureFetch?]
  exact shader.seen_prefix b settings s Notice.seesWordsOnly_textureFetch?

variable {shader}

theorem shownVertexFetches_eq (h : shader.NeverAborts b settings s) :
    shader.shownVertexFetches b settings s =
      vertexFetchesOf none ((Program.read shader.words).visits shader.words) := by
  rw [← visitsSeen_vertexFetch?]
  exact shader.seen_eq b settings s Notice.seesWordsOnly_vertexFetch? h

end Shader

end ShaderMicrocode
