/-
  The example trees that come with the program.

  They are small trees from everyday decisions.  `Bundled.trees` lists them with their names.
-/
import BranchProbe.Tree.Basic

namespace BranchProbe.Bundled

/-- A node that is entered without a condition. -/
def entered (id text : String) (children : List TreeNode) : TreeNode := ⟨id, text, none, children⟩

/-- A node that is entered under a condition. -/
def given (id text condition : String) (children : List TreeNode) : TreeNode :=
  ⟨id, text, some condition, children⟩

/-- A sample with a name. -/
def sample (name : String) (values : List (String × InputValue)) : Sample :=
  ⟨some name, .ofList values⟩

/-- The nodes of the tree `ageCheck`. -/
def ageCheckRoot : TreeNode :=
  entered "start" "Start" [
    given "age_check" "Age >= 18?" "input.age >= 18" [
      entered "adult" "You are an adult." []],
    given "minor" "You are a minor." "input.age < 18" []]

/-- A question of age with two outcomes. -/
def ageCheck : DecisionTree := ⟨ageCheckRoot, []⟩

/-- The nodes of the tree `complexLoan`. -/
def complexLoanRoot : TreeNode :=
  entered "start" "Loan Application Evaluation" [
    given "initial_screening" "Initial Screening" "input.has_applied_before != True" [
      given "age_verification" "Age Verification" "input.age >= 21" [
        given "income_evaluation" "Income Evaluation" "input.annual_income >= 45000" [
          given "credit_score_check" "Credit Score Evaluation" "input.credit_score >= 650" [
            given "debt_ratio_check" "Debt-to-Income Ratio Evaluation"
                "input.debt_to_income_ratio < 0.4" [
              given "employment_verification" "Employment Verification"
                  "input.employment_years >= 2" [
                given "loan_amount_check" "Loan Amount Evaluation"
                    "input.loan_amount <= input.annual_income * 0.8" [
                  given "approved_high_priority" "Approved - High Priority"
                      "input.credit_score >= 750 and input.employment_years >= 5" [],
                  given "approved_medium_priority" "Approved - Medium Priority"
                      "input.credit_score >= 700" [],
                  entered "approved_low_priority" "Approved - Low Priority" []],
                entered "loan_amount_too_high" "Rejected - Loan Amount Too High" []],
              entered "employment_too_short" "Employment History Too Short" [
                given "exception_review" "Exception Review"
                    "input.has_collateral == True and input.credit_score >= 720" [
                  entered "approved_with_exceptions" "Approved with Exceptions" []],
                entered "rejected_short_employment" "Rejected - Insufficient Employment History" []]],
            entered "debt_ratio_too_high" "Rejected - Debt Ratio Too High" []],
          entered "credit_score_too_low" "Credit Score Below Threshold" [
            given "guarantor_option" "Guarantor Option" "input.has_guarantor == True" [
              given "guarantor_evaluation" "Guarantor Evaluation"
                  "input.guarantor_credit_score >= 700" [
                entered "approved_with_guarantor" "Approved with Guarantor" []],
              entered "guarantor_rejected" "Guarantor Rejected" []],
            entered "credit_score_rejected" "Rejected - Low Credit Score" []]],
        entered "income_too_low" "Income Below Threshold" [
          given "cosigner_option" "Co-signer Option" "input.has_cosigner == True" [
            given "cosigner_evaluation" "Co-signer Evaluation"
                "input.cosigner_income >= 60000 and input.cosigner_credit_score >= 680" [
              entered "approved_with_cosigner" "Approved with Co-signer" []],
            entered "cosigner_rejected" "Co-signer Rejected" []],
          entered "income_rejected" "Rejected - Insufficient Income" []]],
      entered "under_age" "Rejected - Below Minimum Age" []],
    entered "previous_applicant" "Previous Applicant Review" [
      given "previous_application_check" "Previous Application Status Check"
          "input.previous_application_status == 'completed'" [
        given "time_since_previous" "Time Since Previous Application"
            "input.months_since_previous >= 6" [
          entered "escalate_to_manager" "Escalate to Manager Review" []],
        entered "rejected_too_recent" "Rejected - Too Recent Previous Application" []],
      entered "incomplete_previous" "Previous Application Incomplete" [
        entered "restart_application" "Restart Application Process" []]]]

/-- The samples of the tree `complexLoan`, one for a way through it. -/
def complexLoanSamples : List Sample := [
    sample "High Priority Approval Path"
      [("has_applied_before", .bool false), ("age", .integer 30),
      ("annual_income", .integer 95000), ("credit_score", .integer 780),
      ("debt_to_income_ratio", .float 0.25), ("employment_years", .integer 6),
      ("loan_amount", .integer 70000)],
    sample "Medium Priority Approval Path"
      [("has_applied_before", .bool false), ("age", .integer 27),
      ("annual_income", .integer 65000), ("credit_score", .integer 720),
      ("debt_to_income_ratio", .float 0.3), ("employment_years", .integer 3),
      ("loan_amount", .integer 45000)],
    sample "Low Priority Approval Path"
      [("has_applied_before", .bool false), ("age", .integer 23),
      ("annual_income", .integer 50000), ("credit_score", .integer 680),
      ("debt_to_income_ratio", .float 0.35), ("employment_years", .integer 2),
      ("loan_amount", .integer 30000)],
    sample "Approved with Exceptions Path"
      [("has_applied_before", .bool false), ("age", .integer 25),
      ("annual_income", .integer 60000), ("credit_score", .integer 730),
      ("debt_to_income_ratio", .float 0.3), ("employment_years", .float 1.5),
      ("has_collateral", .bool true)],
    sample "Approved with Guarantor Path"
      [("has_applied_before", .bool false), ("age", .integer 22),
      ("annual_income", .integer 48000), ("credit_score", .integer 620),
      ("debt_to_income_ratio", .float 0.3), ("employment_years", .integer 2),
      ("loan_amount", .integer 25000), ("has_guarantor", .bool true),
      ("guarantor_credit_score", .integer 750)],
    sample "Approved with Co-signer Path"
      [("has_applied_before", .bool false), ("age", .integer 24),
      ("annual_income", .integer 40000), ("has_cosigner", .bool true),
      ("cosigner_income", .integer 75000), ("cosigner_credit_score", .integer 740)],
    sample "Rejected - Loan Amount Too High"
      [("has_applied_before", .bool false), ("age", .integer 28),
      ("annual_income", .integer 55000), ("credit_score", .integer 700),
      ("debt_to_income_ratio", .float 0.3), ("employment_years", .integer 3),
      ("loan_amount", .integer 65000)],
    sample "Rejected - Low Credit Score"
      [("has_applied_before", .bool false), ("age", .integer 30),
      ("annual_income", .integer 58000), ("credit_score", .integer 580),
      ("has_guarantor", .bool false)],
    sample "Previous Applicant Path"
      [("has_applied_before", .bool true), ("previous_application_status", .text "completed"),
      ("months_since_previous", .integer 8)],
    sample "Unreachable Path Test"
      [("has_applied_before", .bool false), ("age", .integer 19),
      ("annual_income", .integer 100000), ("credit_score", .integer 800)]]

/-- A loan with many ways to be approved or rejected, and samples for them. -/
def complexLoan : DecisionTree := ⟨complexLoanRoot, complexLoanSamples⟩

/-- The nodes of the tree `loanApplication`. -/
def loanApplicationRoot : TreeNode :=
  entered "start" "Loan Application" [
    given "income_check" "Annual Income Check" "input.annual_income >= 30000" [
      given "credit_score_check" "Credit Score Check" "input.credit_score >= 700" [
        entered "loan_approved" "Loan Approved" []],
      given "credit_score_low" "Credit Score Low" "input.credit_score < 700" [
        entered "loan_rejected_credit" "Loan Rejected - Low Credit Score" []]],
    given "income_too_low" "Income Too Low" "input.annual_income < 30000" [
      entered "loan_rejected_income" "Loan Rejected - Low Income" []]]

/-- A loan that depends on income and credit score. -/
def loanApplication : DecisionTree := ⟨loanApplicationRoot, []⟩

/-- The nodes of the tree `productRecommendation`. -/
def productRecommendationRoot : TreeNode :=
  entered "start" "Product Recommendation" [
    given "category_check" "Category Selection" "input.category == 'electronics'" [
      given "budget_check" "Budget Check" "input.budget >= 1000" [
        entered "premium_electronics" "Premium Electronics" []],
      given "budget_low" "Budget Low" "input.budget < 1000" [
        entered "budget_electronics" "Budget Electronics" []]],
    given "clothing_check" "Clothing Category" "input.category == 'clothing'" [
      given "gender_check" "Gender Preference" "input.gender == 'male'" [
        entered "mens_clothing" "Men's Clothing" []],
      given "womens_clothing" "Women's Clothing" "input.gender == 'female'" []]]

/-- Products by category, budget and gender. -/
def productRecommendation : DecisionTree := ⟨productRecommendationRoot, []⟩

/-- The trees by name. -/
def trees : List (String × DecisionTree) :=
  [("age_check", ageCheck), ("complex_loan", complexLoan), ("loan_application", loanApplication),
    ("product_recommendation", productRecommendation)]

end BranchProbe.Bundled
