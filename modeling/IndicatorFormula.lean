import IndicatorFormula.Calculation.RunLog
import IndicatorFormula.Document.Reader
import IndicatorFormula.Proofs.Calculation.Atomicity
import IndicatorFormula.Proofs.Calculation.Frame
import IndicatorFormula.Proofs.Calculation.Interleaving
import IndicatorFormula.Proofs.Calculation.Loading
import IndicatorFormula.Proofs.Calculation.Payload
import IndicatorFormula.Proofs.Calculation.Verdict
import IndicatorFormula.Proofs.Evaluation.Attribution
import IndicatorFormula.Proofs.Evaluation.Dependencies
import IndicatorFormula.Proofs.Evaluation.LookAhead
import IndicatorFormula.Proofs.Evaluation.Quoting
import IndicatorFormula.Proofs.Evaluation.Reordering
import IndicatorFormula.Proofs.Evaluation.Representation
import IndicatorFormula.Proofs.Evaluation.Undefined
import IndicatorFormula.Proofs.Formula.Range
import IndicatorFormula.Proofs.Formula.RoundTrip
import IndicatorFormula.Proofs.Series.Alignment
import IndicatorFormula.Proofs.Series.Correlation
import IndicatorFormula.Proofs.Series.Drawdown
import IndicatorFormula.Proofs.Series.EqualValues
import IndicatorFormula.Proofs.Series.Oscillator
import IndicatorFormula.Proofs.Series.Regression
import IndicatorFormula.Proofs.Series.Trend
import IndicatorFormula.Proofs.Series.WeightedIndex
import IndicatorFormula.Proofs.Store.Refinement
import IndicatorFormula.Proofs.Store.Retrying
import IndicatorFormula.Settings.Load
import IndicatorFormula.Workspace
