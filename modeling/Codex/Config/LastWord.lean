import Codex.Config.ApplyEdits
import Codex.Config.Origins
import Mathlib.Data.List.Perm.Subperm

/-!
# The last word of the layers

What a merged config has at a place is the word of the last layer with a say there: a value,
or something other than a table above. Two values are equal exactly if they have equal nodes
at all places below.
-/

namespace Codex.Config

open Foundation List TomlValue

/-! ## Nodes -/

inductive Node
  | table
  | leaf (value : TomlValue)

def Node.same : Node → Node → Bool
  | .table, .table => true
  | .leaf v, .leaf w => v.same w
  | _, _ => false

def sameNode : Option Node → Option Node → Bool
  | some a, some b => a.same b
  | none, none => true
  | _, _ => false

def TomlValue.node : TomlValue → Node
  | .table _ => .table
  | v => .leaf v

def TomlValue.nodeAt (v : TomlValue) (place : List Text) : Option Node :=
  (v.readAt (keySteps place)).map node

variable {v w : TomlValue} {place path : List Text}

theorem readAt_append (p q : List Text) (v : TomlValue) :
    v.readAt (keySteps (p ++ q)) = (v.readAt (keySteps p)).bind fun w => w.readAt (keySteps q) := by
  induction p generalizing v with
  | nil => simp
  | cons k p ih => simp [ih, Option.bind_assoc]

theorem nodeAt_append (p q : List Text) (v : TomlValue) :
    v.nodeAt (p ++ q) = (v.readAt (keySteps p)).bind fun w => w.nodeAt q := by
  simp [nodeAt, readAt_append, Option.map_bind]

theorem keysUnique_readAt (hv : v.KeysUnique) (h : v.readAt (keySteps place) = some w) :
    w.KeysUnique := by
  induction place generalizing v with
  | nil =>
    obtain rfl := Option.some.inj ((readAt_nil v).symm.trans h)
    exact hv
  | cons k place ih =>
    rw [keySteps_cons, readAt_cons, step_key, Option.bind_eq_some_iff] at h
    obtain ⟨child, hchild, h⟩ := h
    cases v with
    | table entries => exact ih (keysUnique_get hv hchild) h
    | scalar value | array items => cases hchild

theorem keysUnique_valueAtPath (hv : v.KeysUnique) (h : valueAtPath v path = some w) :
    w.KeysUnique := by
  induction path generalizing v with
  | nil =>
    rw [valueAtPath] at h
    cases h
    exact hv
  | cons segment path ih =>
    cases hv with
    | scalar value => cases h
    | array hall =>
      obtain ⟨idx, -, h⟩ := Option.bind_eq_some_iff.mp h
      obtain ⟨item, hitem, h⟩ := Option.bind_eq_some_iff.mp h
      exact ih (hall item (mem_of_getElem? hitem)) h
    | table hkeys hall =>
      obtain ⟨child, hchild, h⟩ := Option.bind_eq_some_iff.mp h
      exact ih (hall _ (mem_of_getEntry hchild)) h

/-- Behind a value that is no table, a path is read in that value. -/
theorem valueAtPath_of_leaf {rest : List Text} (h : v.nodeAt place = some (.leaf w)) :
    valueAtPath v (place ++ rest) = valueAtPath w rest := by
  induction place generalizing v with
  | nil =>
    rw [nodeAt, keySteps_nil, readAt_nil] at h
    cases v <;> cases h <;> rfl
  | cons k place ih =>
    obtain ⟨u, hu, hnode⟩ := Option.map_eq_some_iff.mp h
    rw [keySteps_cons, readAt_cons, step_key, Option.bind_eq_some_iff] at hu
    obtain ⟨child, hchild, hu⟩ := hu
    cases v with
    | table entries =>
      rw [cons_append, valueAtPath, show getEntry k entries = some child from hchild]
      exact ih (by rw [nodeAt, hu, Option.map_some, hnode])
    | scalar value | array items => cases hchild

/-! ## Equal values have equal nodes -/

theorem sameEntries_iff {a b : List (Text × TomlValue)} :
    sameEntries a b ↔ ∀ e ∈ a, sameValue (some e.2) (getEntry e.1 b) := by
  induction a with
  | nil => simp [sameEntries]
  | cons e a ih =>
    rw [forall_mem_cons, ← ih, sameEntries, Bool.and_eq_true]
    refine and_congr_left' ?_
    cases getEntry e.1 b <;> simp [sameValue]

theorem isSome_of_sameValue {a b : Option TomlValue} (h : sameValue a b) : a.isSome = b.isSome := by
  cases a <;> cases b <;> first | rfl | cases h

theorem same_tables {a b : List (Text × TomlValue)} (ha : (a.map Prod.fst).Nodup)
    (hb : (b.map Prod.fst).Nodup) :
    (table a).same (table b) ↔ ∀ k, sameValue (getEntry k a) (getEntry k b) := by
  have hmem : ∀ {l : List (Text × TomlValue)} {k}, k ∈ l.map Prod.fst ↔ (getEntry k l).isSome := by
    intro l k
    rw [← Option.ne_none_iff_isSome, ne_eq, getEntry_eq_none, not_not]
  simp only [same, Bool.and_eq_true, decide_eq_true_eq, sameEntries_iff]
  constructor
  · rintro ⟨hlen, hsame⟩ k
    cases hk : getEntry k a with
    | some v => exact hsame (k, v) (mem_of_getEntry hk)
    | none =>
      have hsub : a.map Prod.fst ⊆ b.map Prod.fst := by
        intro k hk
        obtain ⟨e, he, rfl⟩ := mem_map.mp hk
        exact hmem.mpr ((isSome_of_sameValue (hsame e he)).symm)
      have hperm := (ha.subperm hsub).perm_of_length_le (by simp [hlen])
      have hnone : getEntry k b = none := by
        rw [getEntry_eq_none, ← hperm.mem_iff, ← getEntry_eq_none, hk]
      rw [hnone]
      rfl
  · intro h
    have hperm : (a.map Prod.fst).Perm (b.map Prod.fst) := by
      refine (perm_ext_iff_of_nodup ha hb).mpr fun k => ?_
      rw [hmem, hmem, isSome_of_sameValue (h k)]
    refine ⟨by simpa using hperm.length_eq, fun e he => ?_⟩
    rw [← getEntry_of_mem ha he]
    exact h e.1

theorem node_leaf (h : v.IsLeaf) : v.node = .leaf v := by
  cases v with
  | table entries => exact absurd h (not_isLeaf_table entries)
  | scalar value | array items => rfl

theorem nodeAt_nil (v : TomlValue) : v.nodeAt [] = some v.node := by simp [nodeAt]

theorem nodeAt_leaf_cons (h : v.IsLeaf) (k : Text) : v.nodeAt (k :: place) = none := by
  rw [nodeAt, readAt_leaf h (cons_ne_nil k place), Option.map_none]

theorem same_leaf (hv : v.IsLeaf) :
    v.same w ↔ ∀ place, sameNode (v.nodeAt place) (w.nodeAt place) := by
  have hnil : sameNode (v.nodeAt []) (w.nodeAt []) = v.same w := by
    rw [nodeAt_nil, nodeAt_nil, node_leaf hv]
    cases w with
    | table entries =>
      cases v with
      | table entries => exact absurd hv (not_isLeaf_table entries)
      | scalar value | array items => rfl
    | scalar value | array items => rfl
  refine ⟨fun h place => ?_, fun h => hnil ▸ h []⟩
  cases place with
  | nil => rwa [hnil]
  | cons k place =>
    have hw : w.IsLeaf := by
      cases v with
      | table entries => exact absurd hv (not_isLeaf_table entries)
      | scalar value | array items =>
        rintro entries rfl
        cases h
    rw [nodeAt_leaf_cons hv, nodeAt_leaf_cons hw]
    rfl

theorem sameValue_iff {a b : Option TomlValue} (h : ∀ v ∈ a, ∀ w ∈ b,
      (v.same w ↔ ∀ place, sameNode (v.nodeAt place) (w.nodeAt place))) :
    sameValue a b ↔ ∀ place, sameNode (a.bind fun v => v.nodeAt place)
      (b.bind fun w => w.nodeAt place) := by
  cases a with
  | none =>
    cases b with
    | none => exact iff_of_true rfl fun _ => rfl
    | some w => exact iff_of_false Bool.false_ne_true fun h => by simpa [nodeAt_nil, sameNode] using h []
  | some v =>
    cases b with
    | none => exact iff_of_false Bool.false_ne_true fun h => by simpa [nodeAt_nil, sameNode] using h []
    | some w => exact h v rfl w rfl

theorem same_iff_nodes (hv : v.KeysUnique) (hw : w.KeysUnique) :
    v.same w ↔ ∀ place, sameNode (v.nodeAt place) (w.nodeAt place) := by
  induction hv generalizing w with
  | scalar value => exact same_leaf (by simp [IsLeaf])
  | array _ _ => exact same_leaf (by simp [IsLeaf])
  | @table entries hkeys _ ih =>
    cases hw with
    | scalar | array => exact iff_of_false Bool.false_ne_true fun h => Bool.false_ne_true (h [])
    | @table entries' hkeys' hall =>
      rw [same_tables hkeys hkeys']
      have hchild : ∀ k, sameValue (getEntry k entries) (getEntry k entries') ↔
          ∀ place, sameNode ((table entries).nodeAt (k :: place))
            ((table entries').nodeAt (k :: place)) := by
        intro k
        rw [sameValue_iff fun v hv w hw => ih _ (mem_of_getEntry hv) (hall _ (mem_of_getEntry hw))]
        simp [nodeAt, Option.map_bind]
      simp only [hchild]
      refine ⟨fun h place => ?_, fun h k place => h (k :: place)⟩
      cases place with
      | nil => rfl
      | cons k place => exact h k place

theorem sameValue_readAt_iff (hv : v.KeysUnique) (hw : w.KeysUnique) (path : List Text) :
    sameValue (v.readAt (keySteps path)) (w.readAt (keySteps path)) ↔
      ∀ place, path <+: place → sameNode (v.nodeAt place) (w.nodeAt place) := by
  rw [sameValue_iff fun v' hv' w' hw' =>
    same_iff_nodes (keysUnique_readAt hv hv') (keysUnique_readAt hw hw')]
  simp only [← nodeAt_append]
  exact ⟨fun h place ⟨below, hbelow⟩ => hbelow ▸ h below, fun h below => h _ (prefix_append path below)⟩

/-! ## The word of a layer -/

/-- The layer has a value at the place, or something other than a table above. -/
def ConfigLayerEntry.Says (layer : ConfigLayerEntry) (place : List Text) : Prop :=
  layer.normalized.Replaces (keySteps place)

def LastWord (layers : List ConfigLayerEntry) (layer : ConfigLayerEntry) (place : List Text) :
    Prop :=
  ∃ pre post, layers = pre ++ layer :: post ∧ layer.Says place ∧ ∀ l ∈ post, ¬ l.Says place

theorem LastWord.snoc {layers : List ConfigLayerEntry} {l layer : ConfigLayerEntry}
    (h : LastWord layers l place) (hnot : ¬ layer.Says place) :
    LastWord (layers ++ [layer]) l place := by
  obtain ⟨pre, post, rfl, hl, hpost⟩ := h
  exact ⟨pre, post ++ [layer], by simp, hl,
    forall_mem_append.mpr ⟨hpost, forall_mem_singleton.mpr hnot⟩⟩

theorem nodeAt_of_not_says {layer : ConfigLayerEntry} (h : ¬ layer.Says place) :
    layer.normalized.nodeAt place = none := by
  rw [nodeAt, Option.map_eq_none_iff, ← Option.not_isSome_iff_eq_none]
  exact fun hsome => h (replaces_of_readAt hsome)

theorem mergedLayers_snoc (layers : List ConfigLayerEntry) (layer : ConfigLayerEntry) :
    mergedLayers (layers ++ [layer]) = mergeTomlValues (mergedLayers layers) layer.config :=
  foldl_append

theorem keysUnique_mergedLayers (layers : List ConfigLayerEntry) :
    (mergedLayers layers).KeysUnique := by
  induction layers using List.reverseRecOn with
  | nil => exact keysUnique_empty
  | append_singleton layers layer ih =>
    rw [mergedLayers_snoc]
    exact keysUnique_merge layer.keysUnique ih

section
variable {layers : List ConfigLayerEntry} {layer : ConfigLayerEntry}

theorem nodeAt_snoc : (mergedLayers (layers ++ [layer])).nodeAt place =
    overIf (layer.Says place) (layer.normalized.nodeAt place) ((mergedLayers layers).nodeAt place) := by
  simp only [nodeAt, Option.map_eq_bind, mergedLayers_snoc]
  exact readAt_merge (some ∘ node) (fun _ _ => rfl) layer.keysUnique (canonical_mergedLayers layers)
    (keySteps place)

theorem nodeAt_snoc_said (h : layer.Says place) :
    (mergedLayers (layers ++ [layer])).nodeAt place = layer.normalized.nodeAt place := by
  rw [nodeAt_snoc, overIf_pos h]

theorem nodeAt_snoc_unsaid (h : ¬ layer.Says place) :
    (mergedLayers (layers ++ [layer])).nodeAt place = (mergedLayers layers).nodeAt place := by
  rw [nodeAt_snoc, overIf_neg h]

/-- Behind some layers, the others say what is at a place, or leave it. -/
theorem nodeAt_lastWord (layers upper : List ConfigLayerEntry) (place : List Text) :
    (∃ l, LastWord upper l place ∧
      (mergedLayers (layers ++ upper)).nodeAt place = l.normalized.nodeAt place) ∨
    (∀ l ∈ upper, ¬ l.Says place) ∧
      (mergedLayers (layers ++ upper)).nodeAt place = (mergedLayers layers).nodeAt place := by
  induction upper using List.reverseRecOn with
  | nil => exact .inr ⟨forall_mem_nil _, by rw [append_nil]⟩
  | append_singleton upper layer ih =>
    rw [← List.append_assoc]
    by_cases hsays : layer.Says place
    · exact .inl ⟨layer, ⟨upper, [], rfl, hsays, forall_mem_nil _⟩, nodeAt_snoc_said hsays⟩
    · rw [nodeAt_snoc_unsaid hsays]
      rcases ih with ⟨l, hlast, hnode⟩ | ⟨hnone, hnode⟩
      · exact .inl ⟨l, hlast.snoc hsays, hnode⟩
      · exact .inr ⟨forall_mem_append.mpr ⟨hnone, forall_mem_singleton.mpr hsays⟩, hnode⟩

theorem nodeAt_of_lastWord {upper : List ConfigLayerEntry} (h : LastWord upper layer place) :
    (mergedLayers (layers ++ upper)).nodeAt place = layer.normalized.nodeAt place := by
  obtain ⟨pre, post, rfl, hsays, hpost⟩ := h
  rcases nodeAt_lastWord layers (pre ++ layer :: post) place with
    ⟨l, ⟨pre', post', heq, hsays', hpost'⟩, hnode⟩ | ⟨hnone, -⟩
  · rw [hnode, last_unique heq hsays hsays' hpost hpost']
  · exact absurd hsays (hnone layer (by simp))

end

/-! ## Paths without items of lists -/

/-- Nothing is read at the path from an item of a list. -/
def TomlValue.ReadByKeys (v : TomlValue) (path : List Text) : Prop :=
  valueAtPath v path = v.readAt (keySteps path)

theorem readByKeys_of_not_replaces (h : ¬ v.Replaces (keySteps path)) : v.ReadByKeys path := by
  induction path generalizing v with
  | nil => exact absurd (replaces_nil v) h
  | cons k path ih =>
    cases v with
    | scalar value | array items => exact absurd (by simp) h
    | table entries =>
      unfold ReadByKeys
      rw [valueAtPath, keySteps_cons, readAt_cons, step_table_key]
      cases hchild : getEntry k entries with
      | none => rfl
      | some child =>
        refine ih fun hchild' => h ?_
        simpa [Replaces, hchild] using hchild'

theorem readByKeys_merge {overlay : TomlValue} (hunique : overlay.KeysUnique) {base : TomlValue}
    {above : List Text} (hcanonical : Canonical above base)
    (hover : (normalizedWithKeyAliases above overlay).ReadByKeys path)
    (hbase : (normalizedWithKeyAliases above overlay).Replaces (keySteps path) ∨
      base.ReadByKeys path) : (mergeTomlValuesAtPath base overlay above).ReadByKeys path := by
  induction path generalizing overlay base above with
  | nil =>
    unfold ReadByKeys
    rw [valueAtPath, keySteps_nil, readAt_nil]
  | cons k path ih =>
    by_cases htables : ∃ b o, base = table b ∧ overlay = table o
    · obtain ⟨below, entries, rfl, rfl⟩ := htables
      have hkeys : (entries.map Prod.fst).Nodup := by
        cases hunique
        assumption
      unfold ReadByKeys at hover hbase ⊢
      rw [merge_tables, valueAtPath, keySteps_cons, readAt_cons, step_table_key,
        getEntry_merged hkeys hcanonical]
      rw [normalizedWithKeyAliases, valueAtPath, keySteps_cons, readAt_cons, step_table_key,
        getEntry_normalized] at hover
      rw [normalizedWithKeyAliases, valueAtPath, keySteps_cons, readAt_cons, step_table_key,
        Replaces, getEntry_normalized] at hbase
      cases hupper : getEntry k (normalizeKeyAliases above entries) with
      | none =>
        rw [hupper] at hbase
        exact hbase.resolve_left id
      | some upper =>
        obtain ⟨key, hkey⟩ := mem_normalizeKeyAliases (mem_of_getEntry hupper)
        have hunique' : upper.KeysUnique := by
          cases hunique with
          | table _ hall => exact hall _ hkey
        rw [hupper] at hover hbase
        cases hbelow : getEntry k below with
        | none => exact hover
        | some existing =>
          rw [hbelow] at hbase
          exact ih hunique' (hcanonical.child hbelow) hover hbase
    · rw [merge_of_not_tables above fun b o hb ho => htables ⟨b, o, hb, ho⟩]
      exact hover

theorem readByKeys_snoc {layers : List ConfigLayerEntry} {layer : ConfigLayerEntry}
    (hlayer : layer.normalized.ReadByKeys path)
    (h : layer.Says path ∨ (mergedLayers layers).ReadByKeys path) :
    (mergedLayers (layers ++ [layer])).ReadByKeys path := by
  rw [mergedLayers_snoc]
  exact readByKeys_merge layer.keysUnique (canonical_mergedLayers layers) hlayer h

theorem readByKeys_mergedLayers (layers : List ConfigLayerEntry) {upper : List ConfigLayerEntry}
    (hupper : ∀ l, LastWord upper l path → l.normalized.ReadByKeys path)
    (h : (mergedLayers layers).ReadByKeys path) :
    (mergedLayers (layers ++ upper)).ReadByKeys path := by
  induction upper using List.reverseRecOn with
  | nil => rwa [append_nil]
  | append_singleton upper layer ih =>
    rw [← List.append_assoc]
    by_cases hsays : layer.Says path
    · exact readByKeys_snoc (hupper layer ⟨upper, [], rfl, hsays, forall_mem_nil _⟩) (.inl hsays)
    · exact readByKeys_snoc (readByKeys_of_not_replaces hsays)
        (.inr (ih fun l hl => hupper l (hl.snoc hsays)))

end Codex.Config
