import AccessibleMarkup.Main
import AccessibleMarkup.Json.Reader
import AccessibleMarkup.Proofs.ElementTags
import AccessibleMarkup.Proofs.Acceptance
import AccessibleMarkup.Proofs.KeptLabels
import AccessibleMarkup.Proofs.Cleaning
import AccessibleMarkup.Proofs.LabelledDocuments
import AccessibleMarkup.Proofs.InputTags
import AccessibleMarkup.Proofs.EnhancedElements
import AccessibleMarkup.Proofs.Idempotence
import AccessibleMarkup.Proofs.Rounds
import AccessibleMarkup.Proofs.Verdicts
import AccessibleMarkup.Proofs.Additions
import AccessibleMarkup.Proofs.NamelessInputs
import AccessibleMarkup.Proofs.Failures
import AccessibleMarkup.Proofs.PartialReports
import AccessibleMarkup.Proofs.EditOrder
import AccessibleMarkup.Proofs.PrependedLabels
import AccessibleMarkup.Proofs.SpanCuts
import AccessibleMarkup.Proofs.RepeatedScans
import AccessibleMarkup.Proofs.LanguageTags
import AccessibleMarkup.Proofs.FileTexts
import AccessibleMarkup.Proofs.HeadingSteps
import AccessibleMarkup.Proofs.AttributePlaces
import AccessibleMarkup.Proofs.Totals
import AccessibleMarkup.Proofs.JsonReports
import AccessibleMarkup.Proofs.WholeOutputs
