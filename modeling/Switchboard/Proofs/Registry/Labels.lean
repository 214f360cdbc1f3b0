import Mathlib.Data.Set.Function
import Switchboard.Proofs.Registry.Run
import Switchboard.Proofs.Text.Marks

/-!
# What the sessions of a registry are drawn as

Can two sessions of a registry be drawn under one label? A label is cut without doubt at its last
colon, which stands in front of the kind of the session. So two single containers share a label
exactly if their kinds agree and their names do once they are joined by a colon
(`SessionKey.label_single_inj`); and names that hold no colon themselves can be told apart again
(`SessionKey.PlainlyNamed.eq_of_label_eq`). Merged logs are all drawn alike, but there are no two of
them in a registry, so its labels are all different (`labels_tell_sessions_apart`).
-/

namespace Switchboard

namespace SessionKey

/-- The end of a label: what kind of session it is. -/
def kindText (interactive : Bool) : String :=
  if interactive then "interactive" else "non-interactive"

/-- The names in a key hold no colon, as is so of the names of pods and containers on a cluster. -/
def PlainlyNamed (key : SessionKey) : Prop :=
  ∀ t ∈ key.target?, ':' ∉ t.pod.toList ∧ ':' ∉ t.container.toList

instance (key : SessionKey) : Decidable key.PlainlyNamed :=
  inferInstanceAs (Decidable (∀ t ∈ key.target?, ':' ∉ t.pod.toList ∧ ':' ∉ t.container.toList))

/-! ## The text of a label -/

theorem colon_not_mem_kindText (interactive : Bool) : ':' ∉ (kindText interactive).toList := by
  cases interactive with
  | true => simp [kindText]
  | false => simp [kindText]

theorem kindText_inj {interactive interactive' : Bool} :
    kindText interactive = kindText interactive' ↔ interactive = interactive' := by
  cases interactive <;> cases interactive' <;> simp [kindText]

theorem toList_label_single (pod container : String) (interactive : Bool) :
    (single pod container interactive).label.toList =
      (pod ++ ":" ++ container).toList ++ ':' :: (kindText interactive).toList := by
  show (pod ++ ":" ++ container ++ ":" ++ kindText interactive).toList = _
  rw [String.toList_append, String.toList_append, List.append_assoc]
  rfl

section Single

variable {pod container pod' container' : String} {interactive interactive' : Bool}

/-- **The kind and the joined names are all that a label tells.** -/
theorem label_single_inj :
    (single pod container interactive).label = (single pod' container' interactive').label ↔
      pod ++ ":" ++ container = pod' ++ ":" ++ container' ∧ interactive = interactive' := by
  rw [← String.toList_inj, toList_label_single, toList_label_single,
    Text.append_mark_inj_last (colon_not_mem_kindText interactive)
      (colon_not_mem_kindText interactive'),
    String.toList_inj, String.toList_inj, kindText_inj]

/-- A colon in a name can stand for the one between two names. -/
example : (single "web:app" "db" true).label = (single "web" "app:db" true).label := rfl

/-- Names without a colon are not mistaken for others, not even for names that have one: there
would be two colons in the text then. -/
theorem names_inj (hpod : ':' ∉ pod.toList) (hcontainer : ':' ∉ container.toList) :
    pod ++ ":" ++ container = pod' ++ ":" ++ container' ↔
      pod = pod' ∧ container = container' := by
  have hjoined : ∀ p c : String, (p ++ ":" ++ c).toList = p.toList ++ ':' :: c.toList := by simp
  rw [← String.toList_inj, hjoined, hjoined, List.append_cons_inj_of_notMem hpod hcontainer,
    String.toList_inj, String.toList_inj]
  simp

end Single

/-! ## Keys with the same label -/

theorem PlainlyNamed.eq_of_label_eq {key key' : SessionKey} (hplain : key.PlainlyNamed)
    (hs : key.isMerged = false) (hs' : key'.isMerged = false) (h : key.label = key'.label) :
    key = key' := by
  cases key with
  | merged selectors => exact absurd hs.symm Bool.false_ne_true
  | single pod container interactive =>
      cases key' with
      | merged selectors => exact absurd hs'.symm Bool.false_ne_true
      | single pod' container' interactive' =>
          obtain ⟨hpod, hcontainer⟩ := hplain ⟨pod, container⟩ rfl
          obtain ⟨hnames, rfl⟩ := label_single_inj.mp h
          obtain ⟨rfl, rfl⟩ := (names_inj hpod hcontainer).mp hnames
          rfl

theorem label_ne_of_isMerged {key key' : SessionKey} (hs : key.isMerged = false)
    (hm : key'.isMerged = true) : key.label ≠ key'.label := by
  cases key with
  | merged selectors => exact absurd hs.symm Bool.false_ne_true
  | single pod container interactive =>
      cases key' with
      | single pod' container' interactive' => exact absurd hm Bool.false_ne_true
      | merged selectors =>
          intro h
          have hcolon : ':' ∈ (single pod container interactive).label.toList := by
            rw [toList_label_single]
            exact List.mem_append_right _ List.mem_cons_self
          rw [h] at hcolon
          exact absurd hcolon (by simp [label])

end SessionKey

namespace Registry

theorem Shaped.eq_of_label_eq {r : Registry} (h : r.Shaped)
    (hplain : ∀ key ∈ r.keys, key.PlainlyNamed) {a b : SessionKey} (ha : a ∈ r.keys)
    (hb : b ∈ r.keys) (hlabel : a.label = b.label) : a = b := by
  cases hma : a.isMerged with
  | false =>
      cases hmb : b.isMerged with
      | false => exact (hplain a ha).eq_of_label_eq hma hmb hlabel
      | true => exact absurd hlabel (SessionKey.label_ne_of_isMerged hma hmb)
  | true =>
      cases hmb : b.isMerged with
      | false => exact absurd hlabel.symm (SessionKey.label_ne_of_isMerged hmb hma)
      | true => exact h.eq_of_isMerged ha hb hma hmb

theorem Shaped.nodup_labels {r : Registry} (h : r.Shaped)
    (hplain : ∀ key ∈ r.keys, key.PlainlyNamed) :
    (r.descriptors.map (·.key.label)).Nodup := by
  have hlabels : r.descriptors.map (·.key.label) = r.keys.map SessionKey.label := by
    unfold keys
    rw [List.map_map]
    rfl
  rw [hlabels]
  exact h.keys_nodup.map_on fun a ha b hb => h.eq_of_label_eq hplain ha hb

/-- **Labels tell the sessions of a registry apart.** No two single containers whose names hold no
colon have the same label, and none has the label of merged logs. So after any sequence of acts on
a new registry, if no name in its keys holds a colon, its sessions are drawn under labels that are
all different. -/
theorem labels_tell_sessions_apart :
    Set.InjOn SessionKey.label {key | key.isMerged = false ∧ key.PlainlyNamed} ∧
    (∀ key key' : SessionKey, key.isMerged = false → key'.isMerged = true →
      key.label ≠ key'.label) ∧
    ∀ (endpoint : Endpoint) (ns : String) (acts : List RegistryAct),
      let r := (opened endpoint ns).run acts
      (∀ key ∈ r.keys, key.PlainlyNamed) → (r.descriptors.map (·.key.label)).Nodup := by
  refine ⟨?_, fun key key' => SessionKey.label_ne_of_isMerged, ?_⟩
  · intro key hkey key' hkey' hlabel
    obtain ⟨hs, hplain⟩ := hkey
    exact hplain.eq_of_label_eq hs hkey'.1 hlabel
  · intro endpoint ns acts r hplain
    have hr : r.Shaped := shaped_run (shaped_opened endpoint ns) acts
    exact hr.nodup_labels hplain

/-- The shell and the log of a container and the merged logs of its image are told apart. -/
theorem shell_log_and_images_told_apart :
    let shell := SessionKey.single "web" "app" true
    let log := SessionKey.single "web" "app" false
    let images := SessionKey.merged ["app"]
    let base : Url :=
      { scheme := "ws", authority := some ⟨"", none, some (.name "localhost"), some 8090⟩
        path := .segments [""], query := none, fragment := none }
    let r := (opened ⟨base, none⟩ "default").run
      [.select (some shell), .select (some log), .select (some images)]
    r.keys = [images, shell, log] ∧ (∀ key ∈ r.keys, key.PlainlyNamed) ∧
      (r.descriptors.map (·.key.label)).Nodup := by
  intro shell log images base r
  have hkeys : r.keys = [images, shell, log] := rfl
  have hplain : ∀ key ∈ r.keys, key.PlainlyNamed := by
    rw [hkeys]
    decide
  exact ⟨hkeys, hplain, labels_tell_sessions_apart.2.2 _ _ _ hplain⟩

end Registry

end Switchboard
