import StateText.Check
import StateText.Draft
import StateText.Main
import StateText.Proofs.AbsentFields
import StateText.Proofs.BareStrings
import StateText.Proofs.Conformity
import StateText.Proofs.Content
import StateText.Proofs.HeaderOrder
import StateText.Proofs.HiddenOutputs
import StateText.Proofs.IterationOrder
import StateText.Proofs.Locality
import StateText.Proofs.MissingSchema
import StateText.Proofs.Nesting
import StateText.Proofs.Placeholder
import StateText.Proofs.QuotedKeys
import StateText.Proofs.Resets
import StateText.Proofs.RootedState
import StateText.Proofs.ScalarLines
import StateText.Proofs.Streams
import StateText.Proofs.Styles
import StateText.Proofs.VisibleState
import StateText.Proofs.WholeLiterals
import StateText.Proofs.WrappedOutputs
import StateText.Proofs.WriteBack
