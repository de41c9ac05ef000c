import Storyboard.Document
import Storyboard.Proofs.Run

namespace Storyboard

variable {R ρ α β : Type}

namespace Fields

theorem read_seq_eq_ok {f : Fields R ρ (α → β)} {x : Fields R ρ α} {ms : Members R} {b : β} :
    ((f <*> x).read ms).1 = .ok b ↔
      ∃ g a, (f.read ms).1 = .ok g ∧ (x.read (f.read ms).2).1 = .ok a ∧ g a = b := by
  change Checked.both _ _ _ = _ ↔ _
  exact Checked.both_eq_ok

theorem read_map_eq_ok {f : α → β} {x : Fields R ρ α} {ms : Members R} {b : β} :
    ((f <$> x).read ms).1 = .ok b ↔ ∃ a, (x.read ms).1 = .ok a ∧ f a = b := by
  change Checked.both _ _ _ = _ ↔ _
  rw [Checked.both_eq_ok]
  constructor
  · intro h
    obtain ⟨g, a, hg, ha, rfl⟩ := h
    cases hg
    exact ⟨a, ha, rfl⟩
  · intro h
    obtain ⟨a, ha, rfl⟩ := h
    exact ⟨f, a, rfl, ha, rfl⟩

theorem read_required_eq_ok {name : FieldName} {c : Codec R α} {get : ρ → α} {ms : Members R}
    {a : α} (h : ((required name c get).read ms).1 = .ok a) : ∃ j, c.read j = .ok a := by
  simp only [required] at h
  split at h
  · exact ⟨_, Checked.under_eq_ok.mp h⟩
  · have hmissing : (Checked.fail .missing : Checked α) = .ok a := Checked.under_eq_ok.mp h
    cases hmissing

theorem read_record_eq_ok {f : Fields R ρ ρ} {j : Json R} {r : ρ} (h : f.record.read j = .ok r) :
    ∃ ms, (f.read ms).1 = .ok r := by
  cases j with
  | obj ms =>
    simp only [record] at h
    split at h
    · cases h
    · exact ⟨ms, h⟩
  | _ => cases h

end Fields

variable [Scalar R]

theorem Codec.read_positive_eq_ok {j : Json R} {x : R} (h : Codec.positive.read j = .ok x) :
    (Exact.finite 0).lt (Scalar.exact x) = true := by
  simp only [Codec.positive] at h
  split at h
  · split at h
    · cases h
      assumption
    · cases h
  · cases h

theorem Project.fps_pos {j : Json R} {p : Project R} (h : Project.codec.read j = .ok p) :
    (Exact.finite 0).lt (Scalar.exact p.fps) = true := by
  obtain ⟨ms, h⟩ := Fields.read_record_eq_ok h
  obtain ⟨f₁, extras, h, -, he₁⟩ := Fields.read_seq_eq_ok.mp h
  obtain ⟨f₂, frames, h, -, he₂⟩ := Fields.read_seq_eq_ok.mp h
  obtain ⟨f₃, fps, h, hfps, he₃⟩ := Fields.read_seq_eq_ok.mp h
  obtain ⟨f₄, height, h, -, he₄⟩ := Fields.read_seq_eq_ok.mp h
  obtain ⟨width, h, he₅⟩ := Fields.read_map_eq_ok.mp h
  subst he₅ he₄ he₃ he₂ he₁
  obtain ⟨j, hj⟩ := Fields.read_required_eq_ok hfps
  exact Codec.read_positive_eq_ok hj

theorem Document.fps_pos {j : Json R} {doc : Document R}
    (h : readDocument Document.codec j = .ok doc) :
    (Exact.finite 0).lt (Scalar.exact doc.project.fps) = true := by
  have hread : Document.codec.read j = .ok doc := by
    rw [readDocument] at h
    cases hc : Document.codec.read j with
    | error issues => rw [hc] at h; cases h
    | ok found => rw [hc] at h; cases h; rfl
  obtain ⟨ms, h⟩ := Fields.read_record_eq_ok hread
  obtain ⟨f₁, extras, h, -, he₁⟩ := Fields.read_seq_eq_ok.mp h
  obtain ⟨f₂, animations, h, -, he₂⟩ := Fields.read_seq_eq_ok.mp h
  obtain ⟨f₃, objects, h, -, he₃⟩ := Fields.read_seq_eq_ok.mp h
  obtain ⟨f₄, speed, h, -, he₄⟩ := Fields.read_seq_eq_ok.mp h
  obtain ⟨project, hproject, he₅⟩ := Fields.read_map_eq_ok.mp h
  subst he₅ he₄ he₃ he₂ he₁
  obtain ⟨j, hj⟩ := Fields.read_required_eq_ok hproject
  exact Project.fps_pos hj

end Storyboard
