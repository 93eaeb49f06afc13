import OpenstackBlueprint.Chart.Nodes
import OpenstackBlueprint.Kit.Dict

/-!
# The node-label precondition

Labels travel through the helpers as `key=value` tokens, joined and split on
spaces and at `=`. For label texts nothing is lost on the way, so
`osh.requireNodeLabels` refuses exactly the node lists on which a wanted label is
missing, its message names the missing labels and who wants them, and the command
it suggests makes the check pass (`requireNodeLabels_exact`).
-/

namespace OpenstackBlueprint.Theorems.NodeLabels

open Kit Chart

/-! ## Labels -/

/-- A text without a space and without `=`. -/
structure LabelText (s : String) : Prop where
  space : ' ' ∉ s.toList
  equals : '=' ∉ s.toList

instance (s : String) : Decidable (LabelText s) :=
  decidable_of_iff (' ' ∉ s.toList ∧ '=' ∉ s.toList)
    ⟨fun h => ⟨h.1, h.2⟩, fun h => ⟨h.space, h.equals⟩⟩

/-- Preconditions of label texts, with one value for each key. `<nil>` is no label
value, and what an absent label reads as. -/
structure LabelList (ps : List NodeLabelPrecondition) : Prop where
  key : ∀ p ∈ ps, LabelText p.key
  value : ∀ p ∈ ps, LabelText p.value
  present : ∀ p ∈ ps, p.value ≠ "<nil>"
  unique : ∀ p ∈ ps, ∀ q ∈ ps, p.key = q.key → p.value = q.value

variable {top : Top} {sel : List String} {nodes : List Node} {key value : String}

/-- The selected component wants the label. -/
def Wants (top : Top) (sel : List String) (key value component : String) : Prop :=
  component ∈ sel ∧ ∃ p ∈ top.values.nodeLabelPreconditions,
    p.key = key ∧ p.value = value ∧ component ∈ p.components

/-- Some node carries the label. -/
def Carried (nodes : List Node) (key value : String) : Prop :=
  ∃ n ∈ nodes, n.labels.lookup key = some value

/-- A selected component wants the label and no node carries it. -/
def Missing (top : Top) (sel : List String) (nodes : List Node) (key value : String) : Prop :=
  (∃ component, Wants top sel key value component) ∧ ¬ Carried nodes key value

/-- `printf "%s=%s"`. -/
def token (key value : String) : String := key ++ "=" ++ value

theorem splitList_token (hkey : LabelText key) (hvalue : LabelText value) :
    splitList '=' (token key value) = [key, value] := by
  have hlist : (token key value).toList = key.toList ++ '=' :: value.toList := by
    simp [token]
  unfold splitList
  rw [hlist, List.splitOn_append_cons_self,
    List.splitOn_eq_singleton hkey.equals, List.splitOn_eq_singleton hvalue.equals]
  simp

theorem token_inj {key' value' : String} (hkey : LabelText key) (hvalue : LabelText value)
    (hkey' : LabelText key') (hvalue' : LabelText value')
    (h : token key value = token key' value') : key = key' ∧ value = value' := by
  have hsplit := congrArg (splitList '=') h
  rw [splitList_token hkey hvalue, splitList_token hkey' hvalue'] at hsplit
  simpa using hsplit

theorem token_ne_empty : token key value ≠ "" := by
  intro h
  have hlist := congrArg String.toList h
  simp [token] at hlist

theorem space_not_mem_token (hkey : LabelText key) (hvalue : LabelText value) :
    ' ' ∉ (token key value).toList := by
  simp [token, hkey.space, hvalue.space]

theorem labelCarried_iff (hvalue : value ≠ "<nil>") :
    labelCarried nodes key value = true ↔ Carried nodes key value := by
  have hnil : "<nil>" ≠ value := hvalue.symm
  unfold labelCarried Carried
  rw [List.any_eq_true]
  refine exists_congr fun n => and_congr_right fun _ => ?_
  unfold tplString
  cases n.labels.lookup key with
  | none => simp [hnil]
  | some v => simp

/-! ## Wanted and missing tokens -/

/-- The tokens `osh.nodeLabelsWanted` joins. -/
def wantedTokens (top : Top) (sel : List String) : List String :=
  sortAlpha (uniq (top.values.nodeLabelPreconditions.flatMap fun p =>
    (p.components.filter (sel.contains ·)).map fun _ => p.key ++ "=" ++ p.value))

theorem nodup_wantedTokens (top : Top) (sel : List String) : (wantedTokens top sel).Nodup :=
  nodup_sortAlpha (nodup_uniq _)

theorem mem_wantedTokens {t : String} :
    t ∈ wantedTokens top sel ↔
      ∃ key value, t = token key value ∧ ∃ component, Wants top sel key value component := by
  unfold wantedTokens Wants
  rw [mem_sortAlpha, mem_uniq, List.mem_flatMap]
  constructor
  · rintro ⟨p, hp, ht⟩
    obtain ⟨component, hcomponent, rfl⟩ := List.mem_map.mp ht
    obtain ⟨hmem, hsel⟩ := List.mem_filter.mp hcomponent
    exact ⟨p.key, p.value, rfl, component, by simpa using hsel, p, hp, rfl, rfl, hmem⟩
  · rintro ⟨key, value, rfl, component, hsel, p, hp, rfl, rfl, hmem⟩
    refine ⟨p, hp, List.mem_map.mpr ⟨component, ?_, rfl⟩⟩
    exact List.mem_filter.mpr ⟨hmem, by simpa using hsel⟩

section Labels

variable (hlabels : LabelList top.values.nodeLabelPreconditions)

include hlabels

theorem labelText_of_wants {component : String} (h : Wants top sel key value component) :
    LabelText key ∧ LabelText value := by
  obtain ⟨-, p, hp, rfl, rfl, -⟩ := h
  exact ⟨hlabels.key p hp, hlabels.value p hp⟩

theorem present_of_wants {component : String} (h : Wants top sel key value component) :
    value ≠ "<nil>" := by
  obtain ⟨-, p, hp, -, rfl, -⟩ := h
  exact hlabels.present p hp

theorem unique_of_wants {value' component component' : String}
    (h : Wants top sel key value component) (h' : Wants top sel key value' component') :
    value = value' := by
  obtain ⟨-, p, hp, hkey, rfl, -⟩ := h
  obtain ⟨-, q, hq, hkey', rfl, -⟩ := h'
  exact hlabels.unique p hp q hq (hkey.trans hkey'.symm)

/-- The tokens come back from the string they were joined into. -/
theorem split_wantedTokens {tokens : List String} (h : ∀ t ∈ tokens, t ∈ wantedTokens top sel) :
    compact (splitList ' ' (join ' ' tokens)) = tokens := by
  refine compact_splitList_join ?_ ?_
  · intro t ht
    obtain ⟨key, value, rfl, component, hwants⟩ := mem_wantedTokens.mp (h t ht)
    obtain ⟨hkey, hvalue⟩ := labelText_of_wants hlabels hwants
    exact space_not_mem_token hkey hvalue
  · intro t ht
    obtain ⟨key, value, rfl, -⟩ := mem_wantedTokens.mp (h t ht)
    exact token_ne_empty

end Labels

/-- A `filterM` none of whose tests raises. -/
theorem filterAuxM_ok {l acc : List String} {f : String → Tpl Bool} {g : String → Bool}
    (h : ∀ t ∈ l, f t = .ok (g t)) : l.filterAuxM f acc = .ok ((l.filter g).reverse ++ acc) := by
  induction l generalizing acc with
  | nil => rfl
  | cons t rest ih =>
    obtain ⟨ht, hrest⟩ := List.forall_mem_cons.mp h
    unfold List.filterAuxM
    rw [ht]
    simp only [bind, Except.bind]
    rw [ih hrest]
    cases hg : g t with
    | true => simp [hg]
    | false => simp [hg]

/-- The token is of a label that no node carries. -/
def missingToken (nodes : List Node) (t : String) : Bool :=
  match splitList '=' t with
  | key :: value :: _ => !(labelCarried nodes key value)
  | _ => false

/-- The wanted tokens of labels that no node carries. -/
def missingTokens (top : Top) (sel : List String) (nodes : List Node) : List String :=
  (wantedTokens top sel).filter (missingToken nodes)

section Missing

variable (hlabels : LabelList top.values.nodeLabelPreconditions)

include hlabels

theorem mem_missingTokens {t : String} :
    t ∈ missingTokens top sel nodes ↔
      ∃ key value, t = token key value ∧ Missing top sel nodes key value := by
  unfold missingTokens Missing
  rw [List.mem_filter, mem_wantedTokens]
  have hmissing : ∀ {key value component}, Wants top sel key value component →
      (missingToken nodes (token key value) = true ↔ ¬ Carried nodes key value) := by
    intro key value component hwants
    obtain ⟨hkey, hvalue⟩ := labelText_of_wants hlabels hwants
    unfold missingToken
    rw [splitList_token hkey hvalue, ← labelCarried_iff (present_of_wants hlabels hwants)]
    simp
  constructor
  · rintro ⟨⟨key, value, rfl, component, hwants⟩, h⟩
    exact ⟨key, value, rfl, ⟨component, hwants⟩, (hmissing hwants).mp h⟩
  · rintro ⟨key, value, rfl, ⟨component, hwants⟩, h⟩
    exact ⟨⟨key, value, rfl, component, hwants⟩, (hmissing hwants).mpr h⟩

theorem nodeLabelsMissing_eq :
    oshNodeLabelsMissing top sel nodes = .ok (join ' ' (missingTokens top sel nodes)) := by
  have hwanted : oshNodeLabelsWanted top sel = join ' ' (wantedTokens top sel) := rfl
  unfold oshNodeLabelsMissing
  rw [hwanted, split_wantedTokens hlabels fun t ht => ht]
  unfold List.filterM
  rw [filterAuxM_ok (g := missingToken nodes)]
  · simp [missingTokens, bind, Except.bind, pure, Except.pure]
  · intro t ht
    obtain ⟨key, value, rfl, component, hwants⟩ := mem_wantedTokens.mp ht
    obtain ⟨hkey, hvalue⟩ := labelText_of_wants hlabels hwants
    unfold missingToken
    rw [splitList_token hkey hvalue]

/-- The check refuses a list of nodes exactly when a token is missing on it. -/
theorem requireNodeLabels_eq :
    oshRequireNodeLabels top sel nodes =
      if nodes ≠ [] ∧ missingTokens top sel nodes ≠ [] then
        .error (.fail (oshNodeLabelMessage top sel (join ' ' (missingTokens top sel nodes)) nodes))
      else .ok () := by
  have hmem : ∀ t ∈ missingTokens top sel nodes, t ∈ wantedTokens top sel :=
    fun t ht => (List.mem_filter.mp ht).1
  have hempty : join ' ' (missingTokens top sel nodes) = "" ↔ missingTokens top sel nodes = [] := by
    constructor
    · intro h
      have hsplit := split_wantedTokens hlabels hmem
      rw [h] at hsplit
      exact hsplit.symm
    · intro h
      rw [h]
      rfl
  unfold oshRequireNodeLabels
  rw [nodeLabelsMissing_eq hlabels]
  by_cases hnodes : nodes = []
  · subst hnodes
    simp
    rfl
  · have hpos : nodes.length > 0 := List.length_pos_iff.mpr hnodes
    rw [if_pos hpos]
    simp only [bind, Except.bind, ne_eq, hnodes, not_false_eq_true, true_and]
    by_cases hmissing : missingTokens top sel nodes = []
    · have hjoin := hempty.mpr hmissing
      rw [if_neg (by simpa using hjoin), if_neg (not_not_intro hmissing)]
      rfl
    · have hjoin : join ' ' (missingTokens top sel nodes) ≠ "" := fun h => hmissing (hempty.mp h)
      rw [if_pos (by simpa using hjoin), if_pos hmissing]
      rfl

end Missing

/-! ## The message -/

/-- The line of the message about a label. -/
def labelLine (top : Top) (sel : List String) (t : String) : String :=
  "    " ++ t ++ "  <- wanted by: " ++ commaJoin (labelWantedBy top sel t)

/-- The command the message suggests. -/
def labelCommand (tokens : List String) : String :=
  "    kubectl label --overwrite nodes --all " ++ join ' ' tokens

/-- The fixed texts of the message: around its two numbers, and around the
command. -/
structure Layout where
  beforeNodes : String
  beforeLabels : String
  afterLabels : String
  beforeCommand : List String
  afterCommand : List String

/-- A message about some tokens: a line for each of them, between lines that name
only how many there are and the command. -/
def Layout.text (layout : Layout) (top : Top) (sel : List String) (nodes : List Node)
    (tokens : List String) : String :=
  String.intercalate "\n" (["", layout.beforeNodes ++ toString nodes.length ++
      layout.beforeLabels ++ toString tokens.length ++ layout.afterLabels, ""] ++
    tokens.map (labelLine top sel) ++
    (layout.beforeCommand ++ labelCommand tokens :: layout.afterCommand))

/-- The message has one layout, whatever it is about. -/
theorem exists_layout : ∃ layout : Layout, ∀ (top : Top) (sel : List String) (nodes : List Node)
    (tokens : List String), compact (splitList ' ' (join ' ' tokens)) = tokens →
      oshNodeLabelMessage top sel (join ' ' tokens) nodes = layout.text top sel nodes tokens :=
  -- the texts are read off the message by unification
  ⟨⟨_, _, _, [_, _, _], [_, _, _, _]⟩, fun top sel nodes tokens hsplit => by
    unfold oshNodeLabelMessage
    rw [hsplit]
    rfl⟩

theorem mem_labelWantedBy (hlabels : LabelList top.values.nodeLabelPreconditions)
    (hkey : LabelText key) (hvalue : LabelText value) {component : String} :
    component ∈ labelWantedBy top sel (token key value) ↔ Wants top sel key value component := by
  unfold labelWantedBy Wants
  rw [mem_sortAlpha, List.mem_flatMap]
  constructor
  · rintro ⟨p, hp, hmem⟩
    split at hmem
    · rename_i heq
      obtain ⟨rfl, rfl⟩ := token_inj (hlabels.key p hp) (hlabels.value p hp) hkey hvalue
        (eq_of_beq heq)
      obtain ⟨hcomponent, hsel⟩ := List.mem_filter.mp hmem
      exact ⟨by simpa using hsel, p, hp, rfl, rfl, hcomponent⟩
    · exact absurd hmem List.not_mem_nil
  · rintro ⟨hsel, p, hp, rfl, rfl, hcomponent⟩
    refine ⟨p, hp, ?_⟩
    have htoken : (p.key ++ "=" ++ p.value == token p.key p.value) = true := beq_self_eq_true _
    rw [if_pos htoken]
    exact List.mem_filter.mpr ⟨hcomponent, by simpa using hsel⟩

/-! ## Following the advice -/

/-- A node after `kubectl label --overwrite` with one token. -/
def setLabel (n : Node) (t : String) : Node :=
  match splitList '=' t with
  | [key, value] => { n with labels := (key, value) :: n.labels.filter fun l => l.1 != key }
  | _ => n

/-- A node after `kubectl label --overwrite` with some tokens. -/
def labelNode (tokens : List String) (n : Node) : Node := tokens.foldl setLabel n

theorem lookup_setLabel (hkey : LabelText key) (hvalue : LabelText value) (n : Node) (k : String) :
    (setLabel n (token key value)).labels.lookup k =
      if k = key then some value else n.labels.lookup k := by
  unfold setLabel
  rw [splitList_token hkey hvalue]
  dsimp only
  rw [List.lookup_cons]
  by_cases hk : k = key
  · subst hk
    simp
  · rw [beq_false_of_ne hk, if_neg hk]
    exact lookup_filter_ne hk

/-- A label set by some token, with one value for each key, ends with that
value. -/
theorem lookup_labelNode {labels : List (String × String)}
    (htext : ∀ l ∈ labels, LabelText l.1 ∧ LabelText l.2)
    (hunique : ∀ l ∈ labels, ∀ l' ∈ labels, l.1 = l'.1 → l.2 = l'.2) (n : Node) (k : String) :
    (labelNode (labels.map fun l => token l.1 l.2) n).labels.lookup k =
      ((labels.find? fun l => l.1 == k).map Prod.snd).or (n.labels.lookup k) := by
  unfold labelNode
  induction labels generalizing n with
  | nil => rfl
  | cons l rest ih =>
    obtain ⟨⟨hkey, hvalue⟩, htext⟩ := List.forall_mem_cons.mp htext
    have hrest : ∀ a ∈ rest, ∀ b ∈ rest, a.1 = b.1 → a.2 = b.2 := fun a ha b hb =>
      hunique a (List.mem_cons_of_mem _ ha) b (List.mem_cons_of_mem _ hb)
    rw [List.map_cons, List.foldl_cons, ih htext hrest, lookup_setLabel hkey hvalue,
      List.find?_cons]
    by_cases hk : k = l.1
    · subst hk
      rw [beq_self_eq_true, if_pos rfl]
      cases hfind : rest.find? fun l' => l'.1 == l.1 with
      | none => rfl
      | some l' =>
        -- a later token of the key has the same value
        have hsame : l'.1 = l.1 := by simpa using List.find?_some hfind
        have hvalue := hunique l' (List.mem_cons_of_mem _ (List.mem_of_find?_eq_some hfind)) l
          List.mem_cons_self hsame
        simp [hvalue]
    · rw [if_neg hk, beq_false_of_ne (Ne.symm hk)]

/-- Tokens with a property of their labels, as labels. -/
theorem exists_labels {P : String → String → Prop} {tokens : List String}
    (h : ∀ t ∈ tokens, ∃ key value, t = token key value ∧ P key value) :
    ∃ labels : List (String × String), tokens = labels.map (fun l => token l.1 l.2) ∧
      ∀ l ∈ labels, P l.1 l.2 := by
  induction tokens with
  | nil => exact ⟨[], rfl, fun l hl => absurd hl List.not_mem_nil⟩
  | cons t rest ih =>
    obtain ⟨⟨key, value, rfl, hP⟩, hrest⟩ := List.forall_mem_cons.mp h
    obtain ⟨labels, rfl, hlabels⟩ := ih hrest
    exact ⟨(key, value) :: labels, rfl, List.forall_mem_cons.mpr ⟨hP, hlabels⟩⟩

/-- On nodes labelled with the missing tokens nothing wanted is missing. -/
theorem missing_after_labelling (hlabels : LabelList top.values.nodeLabelPreconditions)
    (hnodes : nodes ≠ []) :
    ¬ Missing top sel (nodes.map (labelNode (missingTokens top sel nodes))) key value := by
  rintro ⟨⟨component, hwants⟩, hcarried⟩
  have hmem : ∀ t ∈ missingTokens top sel nodes,
      ∃ key value, t = token key value ∧ Missing top sel nodes key value :=
    fun t ht => (mem_missingTokens hlabels).mp ht
  obtain ⟨labels, htokens, hmissing⟩ := exists_labels hmem
  have htext : ∀ l ∈ labels, LabelText l.1 ∧ LabelText l.2 := by
    intro l hl
    obtain ⟨⟨_, hl⟩, -⟩ := hmissing l hl
    exact labelText_of_wants hlabels hl
  have hunique : ∀ l ∈ labels, ∀ l' ∈ labels, l.1 = l'.1 → l.2 = l'.2 := by
    rintro ⟨key, value⟩ hl ⟨key', value'⟩ hl' rfl
    obtain ⟨⟨_, hl⟩, -⟩ := hmissing _ hl
    obtain ⟨⟨_, hl'⟩, -⟩ := hmissing _ hl'
    exact unique_of_wants hlabels hl hl'
  have hlookup := lookup_labelNode htext hunique
  rw [← htokens] at hlookup
  -- a node carries the label already, or every node has been given it
  have hnode : ∃ n ∈ nodes, (labelNode (missingTokens top sel nodes) n).labels.lookup key =
      some value := by
    cases hfind : labels.find? fun l => l.1 == key with
    | some l =>
      have hkey : l.1 = key := by simpa using List.find?_some hfind
      obtain ⟨⟨_, hl⟩, -⟩ := hmissing l (List.mem_of_find?_eq_some hfind)
      have hvalue : l.2 = value := unique_of_wants hlabels (hkey ▸ hl) hwants
      obtain ⟨n, rest, rfl⟩ := List.exists_cons_of_ne_nil hnodes
      exact ⟨n, List.mem_cons_self, by rw [hlookup, hfind, hvalue.symm]; rfl⟩
    | none =>
      have hold : Carried nodes key value := by
        by_contra hnot
        have hmem := (mem_missingTokens hlabels).mpr ⟨key, value, rfl, ⟨component, hwants⟩, hnot⟩
        rw [htokens] at hmem
        obtain ⟨l, hl, heq⟩ := List.mem_map.mp hmem
        obtain ⟨hkey, hvalue⟩ := labelText_of_wants hlabels hwants
        have hsame := token_inj (htext l hl).1 (htext l hl).2 hkey hvalue heq
        rw [List.find?_eq_none] at hfind
        exact hfind l hl (by simpa using hsame.1)
      obtain ⟨n, hn, hlabel⟩ := hold
      exact ⟨n, hn, by rw [hlookup, hfind, hlabel]; rfl⟩
  obtain ⟨n, hn, hlabel⟩ := hnode
  exact hcarried ⟨_, List.mem_map_of_mem hn, hlabel⟩

/-- The check refuses exactly the non-empty node lists on which a wanted label is
missing. Its message has a line for each missing label with the selected
components that want it, and on the nodes as the suggested command labels them
the check passes. -/
theorem requireNodeLabels_exact :
    ∃ layout : Layout, ∀ (top : Top) (sel : List String) (nodes : List Node),
      LabelList top.values.nodeLabelPreconditions →
      ((∃ e, oshRequireNodeLabels top sel nodes = .error e) ↔
        nodes ≠ [] ∧ ∃ key value, Missing top sel nodes key value) ∧
      ∀ e, oshRequireNodeLabels top sel nodes = .error e →
        ∃ tokens : List String, e = .fail (layout.text top sel nodes tokens) ∧ tokens.Nodup ∧
          (∀ t, t ∈ tokens ↔ ∃ key value, t = token key value ∧ Missing top sel nodes key value) ∧
          (∀ key value, Missing top sel nodes key value → ∀ component,
            component ∈ labelWantedBy top sel (token key value) ↔
              Wants top sel key value component) ∧
          oshRequireNodeLabels top sel (nodes.map (labelNode
            (compact (splitList ' ' (join ' ' tokens))))) = .ok () := by
  obtain ⟨layout, hlayout⟩ := exists_layout
  refine ⟨layout, ?_⟩
  intro top sel nodes hlabels
  have hsplit : compact (splitList ' ' (join ' ' (missingTokens top sel nodes))) =
      missingTokens top sel nodes :=
    split_wantedTokens hlabels fun t ht => (List.mem_filter.mp ht).1
  have hmissing : ∀ nodes, missingTokens top sel nodes ≠ [] ↔
      ∃ key value, Missing top sel nodes key value := by
    intro nodes
    constructor
    · intro hne
      obtain ⟨t, ht⟩ := List.exists_mem_of_ne_nil _ hne
      obtain ⟨key, value, -, h⟩ := (mem_missingTokens hlabels).mp ht
      exact ⟨key, value, h⟩
    · rintro ⟨key, value, h⟩
      exact List.ne_nil_of_mem ((mem_missingTokens hlabels).mpr ⟨key, value, rfl, h⟩)
  rw [requireNodeLabels_eq hlabels, ← hmissing nodes]
  split
  · rename_i hrefused
    refine ⟨⟨fun _ => hrefused, fun _ => ⟨_, rfl⟩⟩, ?_⟩
    intro e he
    refine ⟨missingTokens top sel nodes, ?_, (nodup_wantedTokens top sel).filter _,
      fun t => mem_missingTokens hlabels, ?_, ?_⟩
    · rw [← Except.error.inj he, hlayout top sel nodes _ hsplit]
    · rintro key value ⟨⟨component, hwants⟩, -⟩ _
      obtain ⟨hkey, hvalue⟩ := labelText_of_wants hlabels hwants
      exact mem_labelWantedBy hlabels hkey hvalue
    · rw [hsplit, requireNodeLabels_eq hlabels, if_neg]
      rintro ⟨-, h⟩
      obtain ⟨key, value, h⟩ := (hmissing _).mp h
      exact missing_after_labelling hlabels hrefused.1 h
  · rename_i hpassed
    refine ⟨⟨fun h => ?_, fun h => absurd h hpassed⟩, ?_⟩
    · obtain ⟨e, he⟩ := h
      cases he
    · intro e he
      cases he

/-- Two labels that components schedule on. -/
def twoLabelTop : Top where
  values := {
    chartVersion := "0.3.0", profile := .full, enabled := [], components := []
    dependencyRelaxations := [], componentValues := []
    nodeLabelPreconditions := [
      ⟨"openstack-control-plane", "enabled", ["keystone", "neutron"]⟩,
      ⟨"openvswitch", "enabled", ["neutron", "openvswitch"]⟩] }
  releaseNamespace := "krateo"
  serviceAccount := "installer"

/-- A node without the `openvswitch` label is refused to neutron, until it is
labelled as the message says. -/
theorem openvswitch_label_missing :
    ∃ message tokens, oshRequireNodeLabels twoLabelTop ["keystone", "neutron"]
        [⟨[("openstack-control-plane", "enabled")]⟩] = .error (.fail message) ∧
      token "openvswitch" "enabled" ∈ tokens ∧
      oshRequireNodeLabels twoLabelTop ["keystone", "neutron"]
        ([⟨[("openstack-control-plane", "enabled")]⟩].map (labelNode tokens)) = .ok () := by
  have hlabels : LabelList twoLabelTop.values.nodeLabelPreconditions :=
    ⟨by decide, by decide, by decide, by decide⟩
  have hmissing : Missing twoLabelTop ["keystone", "neutron"]
      [⟨[("openstack-control-plane", "enabled")]⟩] "openvswitch" "enabled" := by
    refine ⟨⟨"neutron", by decide, _, List.mem_cons_of_mem _ List.mem_cons_self, rfl, rfl,
      by decide⟩, ?_⟩
    rintro ⟨n, hn, hlabel⟩
    rw [List.mem_singleton.mp hn] at hlabel
    exact absurd hlabel (by decide)
  obtain ⟨layout, hlayout⟩ := requireNodeLabels_exact
  obtain ⟨hiff, hmessage⟩ := hlayout twoLabelTop ["keystone", "neutron"]
    [⟨[("openstack-control-plane", "enabled")]⟩] hlabels
  obtain ⟨e, he⟩ := hiff.mpr ⟨by decide, "openvswitch", "enabled", hmissing⟩
  obtain ⟨tokens, rfl, -, hmem, -, hfixed⟩ := hmessage e he
  refine ⟨_, _, he, ?_, hfixed⟩
  have htoken := (hmem _).mpr ⟨"openvswitch", "enabled", rfl, hmissing⟩
  exact mem_compact.mpr ⟨mem_splitList_join htoken (by decide), by decide⟩

end OpenstackBlueprint.Theorems.NodeLabels
