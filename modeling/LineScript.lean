import LineScript.Command.Printer
import LineScript.Main
import LineScript.Proofs.DepthLimit
import LineScript.Proofs.Muting
import LineScript.Proofs.Provenance
import LineScript.Proofs.Reachability
import LineScript.Proofs.Refinement
import LineScript.Proofs.Renaming
import LineScript.Proofs.Scanning
import LineScript.Proofs.SinkFailure
import LineScript.Proofs.SourceLines
import LineScript.Proofs.Spelling
import LineScript.Proofs.Thinning
import LineScript.Proofs.Loading
import LineScript.Proofs.Morse
import LineScript.Proofs.Numerals
import LineScript.Proofs.TokenGrammar
import LineScript.Proofs.DirectConversion
import LineScript.Proofs.UnknownOperators
import LineScript.Proofs.Exclusion
import LineScript.Proofs.Ascii
import LineScript.Proofs.Roman
import LineScript.Proofs.Registration
import LineScript.Proofs.Identification
import LineScript.Proofs.Fences
import LineScript.Proofs.TokenOffsets
import LineScript.Proofs.ReportLines
import LineScript.Proofs.FolderSearch
import LineScript.Proofs.TestDiscovery
import LineScript.Proofs.Rounding
import LineScript.Proofs.Literals
import LineScript.Proofs.Comparisons
import LineScript.Proofs.ConditionScan
